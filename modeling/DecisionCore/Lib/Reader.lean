import DecisionCore.Lib.Separated

/-!
# Reading delimited texts

A scanner takes one item off the front of a text.  Where it reads every item of a list back in front
of a delimiter, the list is read back from the closed join of the texts of its items.
-/

namespace Reader

open Separated

variable {χ α β ε : Type}

/-- Take an item off the front of a text. -/
abbrev Scan (ε χ α : Type) := List χ → Except ε (α × List χ)

/-- Change the items a scanner takes. -/
def Scan.map (scan : Scan ε χ α) (f : α → β) : Scan ε χ β := fun text ↦
  (scan text).map fun found ↦ (f found.1, found.2)

/-- Items that are parted by `sep`, up to `close`; `skip` drops what may stand around them.  Every item takes
one unit of fuel. -/
def items [DecidableEq χ] (scan : Scan ε χ α) (skip : List χ → List χ) (sep close : χ) (malformed : ε) :
    ℕ → Scan ε χ (List α)
  | 0, _ => .error malformed
  | fuel + 1, text =>
    match scan text with
    | .error error => .error error
    | .ok (item, rest) =>
      match skip rest with
      | [] => .error malformed
      | c :: rest =>
        if c = sep then (items scan skip sep close malformed fuel (skip rest)).map fun found ↦
          (item :: found.1, found.2)
        else if c = close then .ok ([item], rest)
        else .error malformed

/-- A list behind its opening character. -/
def closed [DecidableEq χ] (scan : Scan ε χ α) (skip : List χ → List χ) (sep close : χ) (malformed : ε)
    (text : List χ) : Except ε (List α × List χ) :=
  match skip text with
  | [] => .error malformed
  | c :: rest =>
    if c = close then .ok ([], rest)
    else items scan skip sep close malformed (rest.length + 1) (c :: rest)

/-- The text of an item is read back in front of every delimiter. -/
def Reads (delimiter : χ → Prop) (scan : Scan ε χ α) (text : List χ) (item : α) : Prop :=
  ∀ rest, Stops delimiter rest → scan (text ++ rest) = .ok (item, rest)

theorem Reads.map {delimiter : χ → Prop} {scan : Scan ε χ α} {text : List χ} {item : α}
    (h : Reads delimiter scan text item) (f : α → β) : Reads delimiter (scan.map f) text (f item) := by
  intro rest hrest
  rw [Scan.map, h rest hrest]
  rfl

/-! ## Joins -/

section Joins

variable {delimiter : χ → Prop} {encode : α → List χ} {sep close : χ} {blanks : List χ}

/-- The items behind the first one. -/
def tailText (encode : α → List χ) (sep : χ) (blanks : List χ) (items : List α) : List χ :=
  items.flatMap fun item ↦ sep :: (blanks ++ encode item)

theorem intercalate_map_cons (item : α) (items : List α) :
    (sep :: blanks).intercalate ((item :: items).map encode) = encode item ++ tailText encode sep blanks items := by
  induction items generalizing item with
  | nil => simp [tailText]
  | cons next items ih =>
    calc (sep :: blanks).intercalate ((item :: next :: items).map encode)
        = encode item ++ (sep :: blanks ++ (sep :: blanks).intercalate ((next :: items).map encode)) := by
          rw [List.map_cons, List.map_cons, List.intercalate_cons_cons, List.append_assoc]
      _ = encode item ++ tailText encode sep blanks (next :: items) := by
          rw [ih, tailText, tailText, List.flatMap_cons]
          simp only [List.cons_append, List.append_assoc]

theorem stops_tailText (hsep : delimiter sep) (hclose : delimiter close) (items : List α) (rest : List χ) :
    Stops delimiter (tailText encode sep blanks items ++ close :: rest) := by
  cases items with
  | nil => simpa [tailText] using hclose
  | cons item items => simpa [tailText] using hsep

/-- Every item takes at least its separator. -/
theorem length_le_tailText (items : List α) : items.length ≤ (tailText encode sep blanks items).length := by
  induction items with
  | nil => exact Nat.zero_le _
  | cons item items ih =>
    have hcons : (tailText encode sep blanks (item :: items)).length =
        1 + (blanks ++ encode item).length + (tailText encode sep blanks items).length := by
      simp only [tailText, List.flatMap_cons, List.cons_append, List.length_cons, List.length_append]
      omega
    rw [hcons, List.length_cons]
    omega

theorem length_le_intercalate {separator : List χ} {part : List χ} {parts : List (List χ)} (h : part ∈ parts) :
    part.length ≤ (separator.intercalate parts).length := by
  induction parts with
  | nil => cases h
  | cons first parts ih =>
    cases parts with
    | nil =>
      obtain rfl := List.mem_singleton.mp h
      simp
    | cons next parts =>
      rw [List.intercalate_cons_cons, List.length_append, List.length_append]
      rcases List.mem_cons.mp h with hfirst | hrest
      · rw [hfirst]
        omega
      · have := ih hrest
        omega

/-- What `skip` leaves alone around the items of a join. -/
structure Skips (skip : List χ → List χ) (encode : α → List χ) (sep close : χ) (blanks : List χ) (item : α) : Prop where
  sep : ∀ rest, skip (sep :: rest) = sep :: rest
  close : ∀ rest, skip (close :: rest) = close :: rest
  blank : ∀ rest, skip (blanks ++ (encode item ++ rest)) = encode item ++ rest

variable [DecidableEq χ] {scan : Scan ε χ α} {skip : List χ → List χ} (malformed : ε)

theorem items_tailText (hsep : delimiter sep) (hclose : delimiter close) (hne : sep ≠ close) {item : α}
    {more : List α} {fuel : ℕ} (hfuel : more.length < fuel)
    (hreads : ∀ other ∈ item :: more, Reads delimiter scan (encode other) other)
    (hskips : ∀ other ∈ item :: more, Skips skip encode sep close blanks other) (rest : List χ) :
    items scan skip sep close malformed fuel (encode item ++ (tailText encode sep blanks more ++ close :: rest)) =
      .ok (item :: more, rest) := by
  induction more generalizing item fuel with
  | nil =>
    obtain ⟨fuel, rfl⟩ := Nat.exists_eq_add_of_lt hfuel
    have hitem := hreads item List.mem_cons_self (close :: rest) (stops_cons.mpr hclose)
    have hclosed := (hskips item List.mem_cons_self).close rest
    simp only [tailText, List.flatMap_nil, List.nil_append, items, hitem, hclosed, if_neg hne.symm, if_true]
  | cons next more ih =>
    obtain ⟨fuel, rfl⟩ : ∃ n, fuel = n + 1 := ⟨fuel - 1, by omega⟩
    have hskip := hskips item List.mem_cons_self
    have hnext := hskips next (List.mem_cons_of_mem _ List.mem_cons_self)
    have htail := ih (Nat.succ_lt_succ_iff.mp hfuel) (fun other hother ↦ hreads other (List.mem_cons_of_mem _ hother))
      fun other hother ↦ hskips other (List.mem_cons_of_mem _ hother)
    have hitem := hreads item List.mem_cons_self (tailText encode sep blanks (next :: more) ++ close :: rest)
      (stops_tailText hsep hclose _ _)
    have htext : tailText encode sep blanks (next :: more) ++ close :: rest =
        sep :: (blanks ++ (encode next ++ (tailText encode sep blanks more ++ close :: rest))) := by
      simp [tailText, List.append_assoc]
    rw [items, hitem, htext]
    simp only [hskip.sep, hnext.blank, htail, if_true, Except.map]

/-- A closed join of items is read back. -/
theorem closed_intercalate (hsep : delimiter sep) (hclose : delimiter close) (hne : sep ≠ close) {all : List α}
    (hreads : ∀ item ∈ all, Reads delimiter scan (encode item) item)
    (hskips : ∀ item ∈ all, Skips skip encode sep close blanks item)
    (hskip : ∀ rest, skip (close :: rest) = close :: rest)
    (hhead : ∀ item ∈ all, ∃ c text, encode item = c :: text ∧ c ≠ close ∧ ∀ rest, skip (c :: rest) = c :: rest)
    (rest : List χ) :
    closed scan skip sep close malformed ((sep :: blanks).intercalate (all.map encode) ++ close :: rest) =
      .ok (all, rest) := by
  cases all with
  | nil =>
    rw [List.map_nil, List.intercalate_nil, List.nil_append, closed, hskip]
    simp
  | cons item more =>
    obtain ⟨c, text, htext, hc, hopen⟩ := hhead item List.mem_cons_self
    let behind := text ++ (tailText encode sep blanks more ++ close :: rest)
    have hfuel : more.length < behind.length + 1 := by
      have hlength : more.length ≤ (tailText encode sep blanks more).length := length_le_tailText more
      simp only [behind, List.length_append, List.length_cons]
      omega
    have hread : items scan skip sep close malformed (behind.length + 1) (c :: behind) = .ok (item :: more, rest) := by
      have hitems := items_tailText malformed hsep hclose hne hfuel hreads hskips rest
      rwa [htext, List.cons_append] at hitems
    rw [intercalate_map_cons, List.append_assoc, htext, List.cons_append, closed, hopen]
    simp only [if_neg hc]
    exact hread

end Joins

end Reader
