import DecisionCore.Lib.Sha256
import DecisionCore.Domain.CanonicalText

/-!
# A local environment

One environment that meets the laws of `Env`, on which the service can be run.  It hashes with
SHA-256, and its texts are those of the real functions at the epoch and for simple floats; elsewhere
they are only injective.
-/

namespace DecisionCore

namespace LocalEnv

/-- A signed tally of milliseconds. -/
def tally (millis : ℤ) : List Char :=
  (if millis < 0 then '-' else '+') :: List.replicate millis.natAbs '1'

def epochText : String := "1970-01-01T00:00:00.000+00:00"

def isoformat (moment : Instant) : String :=
  if moment / 1000 = 0 then epochText else String.ofList (tally (moment / 1000))

def fromisoformat (text : String) : Option Instant :=
  if text = epochText then some 0
  else match text.toList with
    | '-' :: digits => some (-(digits.length * 1000))
    | '+' :: digits => some (digits.length * 1000)
    | _ => none

theorem fromisoformat_isoformat (moment : ℤ) :
    fromisoformat (isoformat moment) = some (moment - moment % 1000) := by
  unfold isoformat
  by_cases hepoch : moment / 1000 = 0
  · rw [if_pos hepoch]
    simp only [fromisoformat, if_true, Option.some.injEq]
    change (0 : ℤ) = moment - moment % 1000
    omega
  · rw [if_neg hepoch]
    have hne : String.ofList (tally (moment / 1000)) ≠ epochText := by
      intro h
      have hhead := congrArg (fun text : String ↦ text.toList.head?) h
      simp only [String.toList_ofList, tally, epochText] at hhead
      split at hhead <;> simp at hhead
    rw [fromisoformat, if_neg hne, String.toList_ofList, tally]
    by_cases hsign : moment / 1000 < 0
    · simp only [hsign, if_true, List.length_replicate, Option.some.injEq]
      change -(((moment / 1000).natAbs : ℤ) * 1000) = moment - moment % 1000
      omega
    · simp only [hsign, if_false, List.length_replicate, Option.some.injEq]
      change ((moment / 1000).natAbs : ℤ) * 1000 = moment - moment % 1000
      omega

def uuid4 (n : ℕ) : String := String.ofList (List.replicate (n + 1) '1')

theorem uuid4_injective : Function.Injective uuid4 := by
  intro first second h
  have hlength := congrArg (fun text : String ↦ text.toList.length) h
  simpa [uuid4] using hlength

/-- What stands before the point. -/
def wholeDigits (value : ℚ) : ℤ := if value = 1 / 2 then 0 else value.num

/-- What stands behind the point. -/
def fractionText (value : ℚ) : String :=
  if value = 1 / 2 then "5" else if value.den = 1 then "0" else "e" ++ value.den.repr

/-- The text of a float, exact for whole numbers and one half. -/
def floatRepr (value : ℚ) : String :=
  toString (wholeDigits value) ++ "." ++ fractionText value

theorem floatRepr_toList (value : ℚ) : (floatRepr value).toList =
    (toString (wholeDigits value)).toList ++ '.' :: (fractionText value).toList := by
  simp [floatRepr]

theorem exponent_ne {text other : String} (hother : other.toList.head? ≠ some 'e') :
    "e" ++ text ≠ other := by
  rintro rfl
  simp at hother

theorem fractionText_half_iff (value : ℚ) : fractionText value = "5" ↔ value = 1 / 2 := by
  unfold fractionText
  split_ifs with hhalf hwhole
  · exact iff_of_true rfl hhalf
  · exact iff_of_false (by decide) hhalf
  · exact iff_of_false (exponent_ne (by decide)) hhalf

theorem den_of_fractionText {first second : ℚ} (hfirst : first ≠ 1 / 2) (hsecond : second ≠ 1 / 2)
    (h : fractionText first = fractionText second) : first.den = second.den := by
  unfold fractionText at h
  rw [if_neg hfirst, if_neg hsecond] at h
  split_ifs at h with hone hone' hone'
  · rw [hone, hone']
  · exact absurd h.symm (exponent_ne (by decide))
  · exact absurd h (exponent_ne (by decide))
  · exact JsonText.natRepr_injective (by simpa using h)

theorem value_of_parts {first second : ℚ} (hwhole : wholeDigits first = wholeDigits second)
    (hfraction : fractionText first = fractionText second) : first = second := by
  by_cases hfirst : first = 1 / 2
  · rw [(fractionText_half_iff first).mpr hfirst, eq_comm, fractionText_half_iff] at hfraction
    rw [hfirst, hfraction]
  · have hsecond : second ≠ 1 / 2 := by
      intro hsecond
      rw [(fractionText_half_iff second).mpr hsecond, fractionText_half_iff] at hfraction
      exact hfirst hfraction
    rw [wholeDigits, wholeDigits, if_neg hfirst, if_neg hsecond] at hwhole
    exact Rat.ext hwhole (den_of_fractionText hfirst hsecond hfraction)

theorem floatRepr_injective : Function.Injective floatRepr := by
  intro first second h
  have hlists := congrArg String.toList h
  rw [floatRepr_toList, floatRepr_toList] at hlists
  have hplain : ∀ n : ℤ, ∀ c ∈ (toString n).toList, ¬ c = '.' := by
    rintro n c hc rfl
    obtain hdigit | hsign := JsonText.mem_intText hc
    · exact absurd hdigit (by decide)
    · exact absurd hsign (by decide)
  have hstops : ∀ text, Separated.Stops (· = '.') ('.' :: text) := fun text ↦ by simp
  obtain ⟨hwhole, hrest⟩ := Separated.append_inj_of_stops (hplain _) (hplain _) (hstops _) (hstops _)
    hlists
  rw [List.cons.injEq] at hrest
  exact value_of_parts (JsonText.intText_injective (String.toList_inj.mp hwhole))
    (String.toList_inj.mp hrest.2)

theorem fractionText_numeral (value : ℚ) :
    ∀ c ∈ (fractionText value).toList, isNumeralChar c = true := by
  unfold fractionText
  split_ifs
  · exact List.all_eq_true.mp (by decide)
  · exact List.all_eq_true.mp (by decide)
  · intro c hc
    simp only [String.toList_append, List.mem_append] at hc
    obtain hmark | hdigit := hc
    · rw [show c = 'e' by simpa using hmark]
      decide
    · simp [isNumeralChar, JsonText.isDigit_of_mem_repr hdigit]

end LocalEnv

/-- The signature stands for a keyed digest of the root. -/
def Env.local : Env where
  sha256 := Sha256.digest
  sign root := Sha256.digest (0 :: root)
  floatRepr := LocalEnv.floatRepr
  containerText
    | .list [] => "[]"
    | .dict [] => "\x7b\x7d"
    | _ => "..."
  parseFloat _ := none
  isoformat := LocalEnv.isoformat
  fromisoformat := LocalEnv.fromisoformat
  uuid4 := LocalEnv.uuid4
  uuid4_injective := LocalEnv.uuid4_injective
  fromisoformat_isoformat := LocalEnv.fromisoformat_isoformat

theorem Env.local_digestSized : Env.local.DigestSized := Sha256.digest_length

theorem Env.local_millisecondTexts : Env.local.MillisecondTexts := by
  intro (moment : ℤ)
  have hsame : (moment - moment % 1000) / 1000 = moment / 1000 := by omega
  change LocalEnv.isoformat (moment - moment % 1000) = LocalEnv.isoformat moment
  rw [LocalEnv.isoformat, LocalEnv.isoformat, hsame]

theorem Env.local_floatTexts : Env.local.FloatTexts where
  injective := LocalEnv.floatRepr_injective
  numeral value c hc := by
    rw [show Env.local.floatRepr value = LocalEnv.floatRepr value from rfl,
      LocalEnv.floatRepr_toList] at hc
    obtain hwhole | hrest := List.mem_append.mp hc
    · exact JsonText.intText_numeral _ c hwhole
    · obtain rfl | hfraction := List.mem_cons.mp hrest
      · decide
      · exact LocalEnv.fractionText_numeral value c hfraction
  marked value := by
    rw [show Env.local.floatRepr value = LocalEnv.floatRepr value from rfl,
      LocalEnv.floatRepr_toList]
    exact .inl (List.mem_append_right _ List.mem_cons_self)

end DecisionCore
