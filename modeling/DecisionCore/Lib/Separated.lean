import Mathlib.Data.List.Forall2
import Mathlib.Data.List.Infix
import Mathlib.Data.List.Basic

/-!
# Joined texts

When the parts of a joined text can be told apart.  A self-delimiting part ends where the first
delimiter behind it stands, and joins of such parts are self-delimiting again.  A part that may hold
the separator itself is a run of pieces of the whole; `runs_nested` compares two such readings.
-/

namespace Separated

variable {χ α : Type*}

/-! ## Self-delimiting encodings -/

/-- The text is over, or goes on with a delimiter. -/
def Stops (delimiter : χ → Prop) (rest : List χ) : Prop := ∀ c ∈ rest.head?, delimiter c

@[simp] theorem stops_nil (delimiter : χ → Prop) : Stops delimiter [] := by simp [Stops]

@[simp] theorem stops_cons {delimiter : χ → Prop} {c : χ} {rest : List χ} :
    Stops delimiter (c :: rest) ↔ delimiter c := by simp [Stops]

/-- Texts without a delimiter end where the first delimiter stands. -/
theorem append_inj_of_stops {delimiter : χ → Prop} {text other rest rest' : List χ}
    (htext : ∀ c ∈ text, ¬ delimiter c) (hother : ∀ c ∈ other, ¬ delimiter c)
    (hrest : Stops delimiter rest) (hrest' : Stops delimiter rest')
    (h : text ++ rest = other ++ rest') : text = other ∧ rest = rest' := by
  induction text generalizing other with
  | nil =>
      cases other with
      | nil => exact ⟨rfl, h⟩
      | cons c other =>
          rw [List.nil_append, List.cons_append] at h
          rw [h, stops_cons] at hrest
          exact absurd hrest (hother c List.mem_cons_self)
  | cons c text ih =>
      cases other with
      | nil =>
          rw [List.nil_append, List.cons_append] at h
          rw [← h, stops_cons] at hrest'
          exact absurd hrest' (htext c List.mem_cons_self)
      | cons d other =>
          rw [List.cons_append, List.cons_append, List.cons.injEq] at h
          obtain ⟨rfl, h⟩ := h
          obtain ⟨rfl, hrests⟩ := ih (fun d hd ↦ htext d (List.mem_cons_of_mem _ hd))
            (fun d hd ↦ hother d (List.mem_cons_of_mem _ hd)) h
          exact ⟨rfl, hrests⟩

/-- The encoding of an item determines the item up to `r` and where its own text ends, whatever
delimiter follows. -/
def Readable (delimiter : χ → Prop) (encode : α → List χ) (r : α → α → Prop) (item : α) : Prop :=
  ∀ {other : α} {rest rest' : List χ}, Stops delimiter rest → Stops delimiter rest' →
    encode item ++ rest = encode other ++ rest' → r item other ∧ rest = rest'

section Joins

variable {delimiter : χ → Prop} {encode : α → List χ} {r : α → α → Prop} {sep close : χ}

theorem intercalate_cons (part : List χ) (parts : List (List χ)) :
    [sep].intercalate (part :: parts) = part ++ parts.flatMap (sep :: ·) := by
  induction parts generalizing part with
  | nil => simp
  | cons next parts ih => rw [List.intercalate_cons_cons, ih, List.flatMap_cons]; simp

theorem stops_tail (hsep : delimiter sep) (hclose : delimiter close) (parts : List (List χ))
    (rest : List χ) : Stops delimiter (parts.flatMap (sep :: ·) ++ close :: rest) := by
  cases parts with
  | nil => simpa using hclose
  | cons part parts => simpa using hsep

/-- The items behind the first one. -/
theorem tail_append_inj (hsep : delimiter sep) (hclose : delimiter close) (hne : sep ≠ close)
    {items others : List α} {rest rest' : List χ}
    (hitems : ∀ item ∈ items, Readable delimiter encode r item)
    (h : (items.map encode).flatMap (sep :: ·) ++ close :: rest =
      (others.map encode).flatMap (sep :: ·) ++ close :: rest') :
    List.Forall₂ r items others ∧ rest = rest' := by
  induction items generalizing others with
  | nil =>
      cases others with
      | nil => exact ⟨.nil, by simpa using h⟩
      | cons other others =>
          have hhead : close = sep := by simpa using congrArg List.head? h
          exact absurd hhead.symm hne
  | cons item items ih =>
      cases others with
      | nil =>
          have hhead : sep = close := by simpa using congrArg List.head? h
          exact absurd hhead hne
      | cons other others =>
          simp only [List.map_cons, List.flatMap_cons, List.cons_append, List.append_assoc,
            List.cons.injEq, true_and] at h
          obtain ⟨hitem, htail⟩ := hitems item List.mem_cons_self
            (stops_tail hsep hclose _ _) (stops_tail hsep hclose _ _) h
          obtain ⟨hothers, hrest⟩ := ih (fun x hx ↦ hitems x (List.mem_cons_of_mem _ hx)) htail
          exact ⟨.cons hitem hothers, hrest⟩

/-- A joined and closed list of self-delimiting items is self-delimiting. -/
theorem intercalate_append_inj (hsep : delimiter sep) (hclose : delimiter close) (hne : sep ≠ close)
    (hhead : ∀ item, ∃ c text, encode item = c :: text ∧ c ≠ close)
    {items others : List α} {rest rest' : List χ}
    (hitems : ∀ item ∈ items, Readable delimiter encode r item)
    (h : [sep].intercalate (items.map encode) ++ close :: rest =
      [sep].intercalate (others.map encode) ++ close :: rest') :
    List.Forall₂ r items others ∧ rest = rest' := by
  cases items with
  | nil =>
      cases others with
      | nil => exact ⟨.nil, by simpa using h⟩
      | cons other others =>
          obtain ⟨c, text, hencode, hc⟩ := hhead other
          rw [List.map_cons, intercalate_cons, hencode] at h
          have hfirst : close = c := by simpa using congrArg List.head? h
          exact absurd hfirst.symm hc
  | cons item items =>
      cases others with
      | nil =>
          obtain ⟨c, text, hencode, hc⟩ := hhead item
          rw [List.map_cons, intercalate_cons, hencode] at h
          have hfirst : c = close := by simpa using congrArg List.head? h
          exact absurd hfirst hc
      | cons other others =>
          simp only [List.map_cons, intercalate_cons, List.append_assoc] at h
          obtain ⟨hitem, htail⟩ := hitems item List.mem_cons_self
            (stops_tail hsep hclose _ _) (stops_tail hsep hclose _ _) h
          obtain ⟨hothers, hrest⟩ := tail_append_inj hsep hclose hne
            (fun x hx ↦ hitems x (List.mem_cons_of_mem _ hx)) htail
          exact ⟨.cons hitem hothers, hrest⟩

end Joins

/-! ## Pieces of a joined text -/

theorem intercalate_append {sep : χ} {parts others : List (List χ)} (hparts : parts ≠ [])
    (hothers : others ≠ []) : [sep].intercalate (parts ++ others) =
      [sep].intercalate parts ++ sep :: [sep].intercalate others := by
  obtain ⟨part, parts, rfl⟩ := List.exists_cons_of_ne_nil hparts
  obtain ⟨other, others, rfl⟩ := List.exists_cons_of_ne_nil hothers
  simp [intercalate_cons]

/-- The pieces of a text determine it. -/
theorem splitOn_injective [BEq χ] [LawfulBEq χ] (sep : χ) :
    Function.Injective (List.splitOn sep) := by
  intro text other h
  calc text = [sep].intercalate (text.splitOn sep) := (List.intercalate_splitOn sep).symm
    _ = [sep].intercalate (other.splitOn sep) := by rw [h]
    _ = other := List.intercalate_splitOn sep

/-- A non-empty run in front of at least as many pieces as follow the first one is that piece. -/
theorem run_eq_singleton {run rest tail : List α} {x : α} (hrun : run ≠ [])
    (hlength : tail.length ≤ rest.length) (h : run ++ rest = x :: tail) : run = [x] ∧ rest = tail := by
  obtain ⟨y, more, rfl⟩ := List.exists_cons_of_ne_nil hrun
  rw [List.cons_append, List.cons.injEq] at h
  obtain ⟨rfl, htail⟩ := h
  have hsum : more.length + rest.length = tail.length := by rw [← htail, List.length_append]
  obtain rfl : more = [] := List.length_eq_zero_iff.mp (by omega)
  exact ⟨rfl, htail⟩

/-- Two readings of one list of pieces: the reading with the longer ends has its middle inside the
middle of the other. -/
theorem runs_nested {first middle last first' middle' last' : List α}
    (h : first ++ middle ++ last = first' ++ middle' ++ last')
    (hfirst : first.length ≤ first'.length) (hlast : last.length ≤ last'.length) :
    ∃ before behind, first' = first ++ before ∧ middle = before ++ middle' ++ behind ∧
      last' = behind ++ last := by
  have hbegins : first <+: first ++ middle ++ last := by
    rw [List.append_assoc]
    exact List.prefix_append _ _
  have hbegins' : first' <+: first ++ middle ++ last := by
    rw [h, List.append_assoc]
    exact List.prefix_append _ _
  have hends : last <:+ first ++ middle ++ last := List.suffix_append _ _
  have hends' : last' <:+ first ++ middle ++ last := h ▸ List.suffix_append _ _
  obtain ⟨before, rfl⟩ := List.prefix_of_prefix_length_le hbegins hbegins' hfirst
  obtain ⟨behind, rfl⟩ := List.suffix_of_suffix_length_le hends hends' hlast
  have hcancel : first ++ (middle ++ last) = first ++ (before ++ middle' ++ behind ++ last) := by
    simpa [List.append_assoc] using h
  exact ⟨before, behind, rfl, List.append_cancel_right (List.append_cancel_left hcancel), rfl⟩

end Separated
