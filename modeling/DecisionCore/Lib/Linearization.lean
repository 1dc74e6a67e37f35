import DecisionCore.Lib.Transition
import Mathlib.Data.List.Nodup
import Mathlib.Data.List.Perm.Basic

/-!
# Calls that look their answer up

Clients call an object at any time and in any interleaving, and may leave at any point.  A call has its whole effect
in one step; it answers there, or it looks its answer up in a later step.  When no effect changes what is still to be
looked up, the calls behave as if each were made in one step between its start and its answer.
-/

namespace DecisionCore

/-- The two steps of the calls of an object. -/
structure Calls (σ α β γ : Type) where
  effect : σ → α → σ × (β ⊕ γ)
  lookup : σ → γ → β

/-- A call with its number and the answer that it has or will have. -/
structure Served (α β : Type) where
  id : ℕ
  op : α
  answer : β

namespace Calls

variable {σ α β γ : Type}

/-- A call that is made in one step. -/
def atomic (calls : Calls σ α β γ) (state : σ) (op : α) : σ × β :=
  match calls.effect state op with
  | (next, .inl answer) => (next, answer)
  | (next, .inr pending) => (next, calls.lookup next pending)

/-- Calls that are made one after the other, each where it is allowed. -/
inductive Sequential (apply : σ → α → σ × β) (allowed : σ → α → Prop) (start : σ) : List (Served α β) → σ → Prop
  | nil : Sequential apply allowed start [] start
  | snoc {order : List (Served α β)} {last : σ} (id : ℕ) {op : α} : Sequential apply allowed start order last →
    allowed last op →
    Sequential apply allowed start (order ++ [⟨id, op, (apply last op).2⟩]) (apply last op).1

inductive Client (α γ : Type) where
  | called (op : α)
  | looking (pending : γ)

/-- What the client has called and what has not had its effect. -/
def Client.op? : Client α γ → Option α
  | .called op => some op
  | .looking _ => none

inductive Event (α β : Type) where
  | called (id : ℕ) (op : α)
  | answered (id : ℕ) (answer : β)

/-- The object with the calls in flight, and what the clients have seen. -/
structure Clients (σ α β γ : Type) where
  object : σ
  inFlight : List (ℕ × Client α γ)
  count : ℕ
  history : List (Event α β)

inductive Label (α : Type) where
  | call (op : α)
  | effect (index : ℕ)
  | lookup (index : ℕ)
  | leave (index : ℕ)

def Clients.initial (object : σ) : Clients σ α β γ := ⟨object, [], 0, []⟩

def step (calls : Calls σ α β γ) (sys : Clients σ α β γ) : Label α → Option (Clients σ α β γ)
  | .call op => some
    { sys with
      inFlight := sys.inFlight ++ [(sys.count, .called op)]
      count := sys.count + 1
      history := sys.history ++ [.called sys.count op] }
  | .effect index =>
    match sys.inFlight[index]? with
    | some (id, .called op) =>
      match calls.effect sys.object op with
      | (object, .inl answer) => some
        { sys with object, inFlight := sys.inFlight.eraseIdx index, history := sys.history ++ [.answered id answer] }
      | (object, .inr pending) => some { sys with object, inFlight := sys.inFlight.set index (id, .looking pending) }
    | _ => none
  | .lookup index =>
    match sys.inFlight[index]? with
    | some (id, .looking pending) => some
      { sys with
        inFlight := sys.inFlight.eraseIdx index
        history := sys.history ++ [.answered id (calls.lookup sys.object pending)] }
    | _ => none
  | .leave index => some { sys with inFlight := sys.inFlight.eraseIdx index }

/-! ## Linearizations -/

/-- The first call has answered before the second one was made. -/
def Precedes (history : List (Event α β)) (first second : ℕ) : Prop :=
  ∃ before after answer op, history = before ++ after ∧ .answered first answer ∈ before ∧ .called second op ∈ after

/-- The calls in this order, each made in one step, leave the object behind and have the answers that were given; a
call stands behind every other one that had answered before it was made. -/
structure Linearizes (calls : Calls σ α β γ) (allowed : σ → α → Prop) (start object : σ)
    (history : List (Event α β)) (order : List (Served α β)) : Prop where
  sequential : Sequential calls.atomic allowed start order object
  distinct : (order.map Served.id).Nodup
  called : ∀ served ∈ order, .called served.id served.op ∈ history
  answered : ∀ id answer, .answered id answer ∈ history → ∃ op, ⟨id, op, answer⟩ ∈ order
  realTime : ∀ first second, Precedes history first second → second ∈ order.map Served.id →
    ∃ before after, order = before ++ after ∧ first ∈ before.map Served.id ∧ second ∈ after.map Served.id

/-- What is known of an object that is still to be looked up does not change by the effects that are allowed. -/
structure Stable (calls : Calls σ α β γ) (allowed : σ → α → Prop) (known : σ → γ → Prop) : Prop where
  pends : ∀ {state next op pending}, allowed state op → calls.effect state op = (next, .inr pending) →
    known next pending
  keeps : ∀ {state next op outcome pending}, allowed state op → calls.effect state op = (next, outcome) →
    known state pending → known next pending ∧ calls.lookup next pending = calls.lookup state pending

/-- The effect of the step is allowed. -/
def Allows (allowed : σ → α → Prop) (sys : Clients σ α β γ) : Label α → Prop
  | .effect index => ∀ client ∈ sys.inFlight[index]?, ∀ op ∈ client.2.op?, allowed sys.object op
  | _ => True

instance {allowed : σ → α → Prop} [∀ state op, Decidable (allowed state op)] (sys : Clients σ α β γ) :
    (label : Label α) → Decidable (Allows allowed sys label)
  | .call _ => isTrue trivial
  | .effect index =>
    inferInstanceAs (Decidable (∀ client ∈ sys.inFlight[index]?, ∀ op ∈ client.2.op?, allowed sys.object op))
  | .lookup _ => isTrue trivial
  | .leave _ => isTrue trivial

/-- The order with what the calls in flight are to it. -/
structure Ordered (calls : Calls σ α β γ) (allowed : σ → α → Prop) (known : σ → γ → Prop) (start : σ)
    (sys : Clients σ α β γ) (order : List (Served α β)) : Prop where
  linearizes : Linearizes calls allowed start sys.object sys.history order
  ids : (sys.inFlight.map Prod.fst).Nodup
  below : (∀ client ∈ sys.inFlight, client.1 < sys.count) ∧ ∀ served ∈ order, served.id < sys.count
  waiting : ∀ id op, (id, Client.called op) ∈ sys.inFlight → id ∉ order.map Served.id ∧ .called id op ∈ sys.history
  looking : ∀ id pending, (id, Client.looking pending) ∈ sys.inFlight → known sys.object pending ∧
    ∃ op, ⟨id, op, calls.lookup sys.object pending⟩ ∈ order

/-! ## One step -/

theorem precedes_concat_called {history : List (Event α β)} {first second id : ℕ} {op : α}
    (h : Precedes (history ++ [.called id op]) first second) : Precedes history first second ∨ second = id := by
  obtain ⟨before, after, answer, other, hsplit, hanswered, hcalled⟩ := h
  obtain rfl | ⟨rest, event, rfl⟩ := List.eq_nil_or_concat after
  · cases hcalled
  · rw [List.concat_eq_append, ← List.append_assoc] at hsplit
    obtain ⟨hhistory, hevent⟩ := List.append_inj' hsplit rfl
    obtain rfl := List.singleton_inj.mp hevent
    obtain hrest | hlast := List.mem_append.mp (List.concat_eq_append ▸ hcalled)
    · exact .inl ⟨before, rest, answer, other, hhistory, hanswered, hrest⟩
    · cases List.mem_singleton.mp hlast
      exact .inr rfl

theorem precedes_concat_answered {history : List (Event α β)} {first second id : ℕ} {answer : β}
    (h : Precedes (history ++ [.answered id answer]) first second) : Precedes history first second := by
  obtain ⟨before, after, other, op, hsplit, hanswered, hcalled⟩ := h
  obtain rfl | ⟨rest, event, rfl⟩ := List.eq_nil_or_concat after
  · cases hcalled
  · rw [List.concat_eq_append, ← List.append_assoc] at hsplit
    obtain ⟨hhistory, hevent⟩ := List.append_inj' hsplit rfl
    obtain rfl := List.singleton_inj.mp hevent
    obtain hrest | hlast := List.mem_append.mp (List.concat_eq_append ▸ hcalled)
    · exact ⟨before, rest, other, op, hhistory, hanswered, hrest⟩
    · cases List.mem_singleton.mp hlast

variable {calls : Calls σ α β γ} {allowed : σ → α → Prop} {known : σ → γ → Prop} {start : σ}
  {sys next : Clients σ α β γ} {order : List (Served α β)}

theorem ordered_initial (calls : Calls σ α β γ) (allowed : σ → α → Prop) (known : σ → γ → Prop) (start : σ) :
    Ordered calls allowed known start (.initial start) [] where
  linearizes := by
    refine ⟨.nil, List.nodup_nil, List.forall_mem_nil _, ?_, ?_⟩
    · intro id answer hanswered
      cases hanswered
    · intro first second _ hsecond
      cases hsecond
  ids := List.nodup_nil
  below := ⟨List.forall_mem_nil _, List.forall_mem_nil _⟩
  waiting id op hclient := by cases hclient
  looking id pending hclient := by cases hclient

/-- A call is made. -/
theorem Ordered.call (ordered : Ordered calls allowed known start sys order) (op : α) :
    Ordered calls allowed known start { sys with
      inFlight := sys.inFlight ++ [(sys.count, .called op)]
      count := sys.count + 1
      history := sys.history ++ [.called sys.count op] } order where
  linearizes := by
    refine ⟨ordered.linearizes.sequential, ordered.linearizes.distinct, ?_, ?_, ?_⟩
    · intro served hserved
      exact List.mem_append_left _ (ordered.linearizes.called served hserved)
    · intro id answer hanswered
      obtain hold | hnew := List.mem_append.mp hanswered
      · exact ordered.linearizes.answered id answer hold
      · cases List.mem_singleton.mp hnew
    · intro first second hprecedes hsecond
      obtain hold | rfl := precedes_concat_called hprecedes
      · exact ordered.linearizes.realTime first second hold hsecond
      · obtain ⟨served, hserved, hid⟩ := List.mem_map.mp hsecond
        exact absurd hid (Nat.ne_of_lt (ordered.below.2 served hserved))
  ids := by
    rw [List.map_append]
    refine List.Nodup.append ordered.ids (List.nodup_singleton _) ?_
    intro id hold hnew
    obtain ⟨client, hclient, rfl⟩ := List.mem_map.mp hold
    exact Nat.ne_of_lt (ordered.below.1 client hclient) (List.mem_singleton.mp hnew)
  below := by
    refine ⟨?_, fun served hserved ↦ Nat.lt_succ_of_lt (ordered.below.2 served hserved)⟩
    intro client hclient
    obtain hold | hnew := List.mem_append.mp hclient
    · exact Nat.lt_succ_of_lt (ordered.below.1 client hold)
    · rw [List.mem_singleton.mp hnew]
      exact Nat.lt_succ_self _
  waiting id other hclient := by
    obtain hold | hnew := List.mem_append.mp hclient
    · obtain ⟨hfresh, hcalled⟩ := ordered.waiting id other hold
      exact ⟨hfresh, List.mem_append_left _ hcalled⟩
    · cases List.mem_singleton.mp hnew
      refine ⟨?_, List.mem_append_right _ List.mem_cons_self⟩
      intro hmem
      obtain ⟨served, hserved, hid⟩ := List.mem_map.mp hmem
      exact Nat.ne_of_lt (ordered.below.2 served hserved) hid
  looking id pending hclient := by
    obtain hold | hnew := List.mem_append.mp hclient
    · exact ordered.looking id pending hold
    · cases List.mem_singleton.mp hnew

section Moves

variable {object : σ} {history : List (Event α β)} {id : ℕ} {op : α} {answer : β}

/-- The next call of the order is one that was made and has not been served. -/
theorem Linearizes.serve (h : Linearizes calls allowed start object history order) (hfresh : id ∉ order.map Served.id)
    (hcalled : .called id op ∈ history) (hallowed : allowed object op) :
    Linearizes calls allowed start (calls.atomic object op).1 history
      (order ++ [⟨id, op, (calls.atomic object op).2⟩]) where
  sequential := h.sequential.snoc id hallowed
  distinct := by
    rw [List.map_append]
    refine List.Nodup.append h.distinct (List.nodup_singleton _) ?_
    intro other hold hnew
    rw [List.mem_singleton.mp hnew] at hold
    exact hfresh hold
  called := by
    intro served hserved
    obtain hold | hnew := List.mem_append.mp hserved
    · exact h.called served hold
    · rw [List.mem_singleton.mp hnew]
      exact hcalled
  answered other answer hanswered := by
    obtain ⟨op, hmem⟩ := h.answered other answer hanswered
    exact ⟨op, List.mem_append_left _ hmem⟩
  realTime := by
    intro first second hprecedes hsecond
    rw [List.map_append] at hsecond
    obtain hold | hnew := List.mem_append.mp hsecond
    · obtain ⟨before, after, rfl, hfirst, hafter⟩ := h.realTime first second hprecedes hold
      refine ⟨before, after ++ [_], List.append_assoc _ _ _, hfirst, ?_⟩
      rw [List.map_append]
      exact List.mem_append_left _ hafter
    · -- The first call has answered, so it has been served before.
      obtain ⟨before, after, answer, other, rfl, hanswered, -⟩ := hprecedes
      obtain ⟨op, hmem⟩ := h.answered first answer (List.mem_append_left _ hanswered)
      exact ⟨order, [_], rfl, List.mem_map.mpr ⟨_, hmem, rfl⟩, hnew⟩

/-- A call that has been served answers what it was served with. -/
theorem Linearizes.answers (h : Linearizes calls allowed start object history order)
    (hserved : ⟨id, op, answer⟩ ∈ order) :
    Linearizes calls allowed start object (history ++ [.answered id answer]) order where
  sequential := h.sequential
  distinct := h.distinct
  called served hmem := List.mem_append_left _ (h.called served hmem)
  answered other found hanswered := by
    obtain hold | hnew := List.mem_append.mp hanswered
    · exact h.answered other found hold
    · cases List.mem_singleton.mp hnew
      exact ⟨op, hserved⟩
  realTime first second hprecedes hsecond :=
    h.realTime first second (precedes_concat_answered hprecedes) hsecond

end Moves

section Rest

variable {object : σ} {history : List (Event α β)} {index id : ℕ} {client : Client α γ} {last : Served α β}

theorem Ordered.perm (hindex : sys.inFlight[index]? = some (id, client)) :
    sys.inFlight.Perm ((id, client) :: sys.inFlight.eraseIdx index) := by
  obtain ⟨hlt, hclient⟩ := List.getElem?_eq_some_iff.mp hindex
  rw [← hclient]
  exact (List.getElem_cons_eraseIdx_perm hlt).symm

/-- The other clients have other numbers. -/
theorem Ordered.nodup_cons (ordered : Ordered calls allowed known start sys order)
    (hindex : sys.inFlight[index]? = some (id, client)) :
    id ∉ (sys.inFlight.eraseIdx index).map Prod.fst ∧ ((sys.inFlight.eraseIdx index).map Prod.fst).Nodup :=
  List.nodup_cons.mp ((((perm hindex).map Prod.fst).nodup_iff).mp ordered.ids)

/-- The client leaves; what it has called is served or not. -/
theorem Ordered.leave (ordered : Ordered calls allowed known start sys order) (index : ℕ) :
    Ordered calls allowed known start { sys with inFlight := sys.inFlight.eraseIdx index } order where
  linearizes := ordered.linearizes
  ids := ordered.ids.sublist ((List.eraseIdx_sublist sys.inFlight index).map Prod.fst)
  below := ⟨fun client hclient ↦ ordered.below.1 client (List.mem_of_mem_eraseIdx hclient), ordered.below.2⟩
  waiting id op hclient := ordered.waiting id op (List.mem_of_mem_eraseIdx hclient)
  looking id pending hclient := ordered.looking id pending (List.mem_of_mem_eraseIdx hclient)

/-- The client is given the answer that its call was served with. -/
theorem Ordered.answer (ordered : Ordered calls allowed known start sys order) {op : α} {answer : β}
    (hserved : ⟨id, op, answer⟩ ∈ order) :
    Ordered calls allowed known start { sys with history := sys.history ++ [.answered id answer] } order where
  linearizes := ordered.linearizes.answers hserved
  ids := ordered.ids
  below := ordered.below
  waiting other op hclient := by
    obtain ⟨hfresh, hcalled⟩ := ordered.waiting other op hclient
    exact ⟨hfresh, List.mem_append_left _ hcalled⟩
  looking := ordered.looking

/-- The call of the client at the index has its effect; the client is not among those that are left. -/
theorem Ordered.serve (stable : Stable calls allowed known) (ordered : Ordered calls allowed known start sys order)
    {op : α} (hindex : sys.inFlight[index]? = some (id, .called op)) (hallowed : allowed sys.object op) :
    Ordered calls allowed known start
      { sys with object := (calls.atomic sys.object op).1, inFlight := sys.inFlight.eraseIdx index }
      (order ++ [⟨id, op, (calls.atomic sys.object op).2⟩]) where
  linearizes := by
    obtain ⟨hfresh, hcalled⟩ := ordered.waiting id op (List.mem_of_getElem? hindex)
    exact ordered.linearizes.serve hfresh hcalled hallowed
  ids := (ordered.nodup_cons hindex).2
  below := by
    refine ⟨fun client hclient ↦ ordered.below.1 client (List.mem_of_mem_eraseIdx hclient), ?_⟩
    intro served hserved
    obtain hold | hnew := List.mem_append.mp hserved
    · exact ordered.below.2 served hold
    · rw [List.mem_singleton.mp hnew]
      exact ordered.below.1 _ (List.mem_of_getElem? hindex)
  waiting other waits hclient := by
    obtain ⟨hfresh, hcalled⟩ := ordered.waiting other waits (List.mem_of_mem_eraseIdx hclient)
    refine ⟨?_, hcalled⟩
    rw [List.map_append, List.mem_append, not_or]
    refine ⟨hfresh, ?_⟩
    intro hsame
    obtain rfl : other = id := List.mem_singleton.mp hsame
    exact (ordered.nodup_cons hindex).1 (List.mem_map.mpr ⟨_, hclient, rfl⟩)
  looking other pending hclient := by
    obtain ⟨hknown, found, hmem⟩ := ordered.looking other pending (List.mem_of_mem_eraseIdx hclient)
    have hobject : calls.effect sys.object op = ((calls.atomic sys.object op).1, (calls.effect sys.object op).2) := by
      unfold atomic
      cases calls.effect sys.object op with
      | mk next outcome => cases outcome <;> rfl
    obtain ⟨hnext, hsame⟩ := stable.keeps hallowed hobject hknown
    rw [hsame]
    exact ⟨hnext, found, List.mem_append_left _ hmem⟩

/-- The client stays to look up what its call was served with. -/
theorem Ordered.look {clients : List (ℕ × Client α γ)} {count : ℕ}
    (ordered : Ordered calls allowed known start ⟨object, clients.eraseIdx index, count, history⟩ order)
    {op : α} {pending : γ} (hlt : index < clients.length) (hnew : id ∉ (clients.eraseIdx index).map Prod.fst)
    (hbelow : id < count) (hknown : known object pending) (hserved : ⟨id, op, calls.lookup object pending⟩ ∈ order) :
    Ordered calls allowed known start ⟨object, clients.set index (id, .looking pending), count, history⟩ order := by
  have hperm : (clients.set index (id, .looking pending)).Perm ((id, .looking pending) :: clients.eraseIdx index) :=
    List.set_perm_cons_eraseIdx hlt _
  refine ⟨ordered.linearizes, ?_, ⟨?_, ordered.below.2⟩, ?_, ?_⟩
  · rw [(hperm.map Prod.fst).nodup_iff, List.map_cons]
    exact List.nodup_cons.mpr ⟨hnew, ordered.ids⟩
  · intro client hclient
    obtain rfl | hrest := List.mem_cons.mp (hperm.mem_iff.mp hclient)
    · exact hbelow
    · exact ordered.below.1 client hrest
  · intro other waits hclient
    obtain hhere | hrest := List.mem_cons.mp (hperm.mem_iff.mp hclient)
    · cases hhere
    · exact ordered.waiting other waits hrest
  · intro other found hclient
    obtain hhere | hrest := List.mem_cons.mp (hperm.mem_iff.mp hclient)
    · cases hhere
      exact ⟨hknown, op, hserved⟩
    · exact ordered.looking other found hrest

end Rest

theorem Ordered.stepped (stable : Stable calls allowed known) (ordered : Ordered calls allowed known start sys order)
    {label : Label α} (hallowed : Allows allowed sys label) (h : calls.step sys label = some next) :
    ∃ more, Ordered calls allowed known start next more := by
  cases label with
  | call op =>
    obtain rfl := Option.some.inj h
    exact ⟨order, ordered.call op⟩
  | effect index =>
    simp only [step] at h
    split at h
    · rename_i id op hindex
      have hserve := ordered.serve stable hindex (hallowed _ hindex op rfl)
      split at h
      · rename_i object answer heffect
        obtain rfl := Option.some.inj h
        simp only [atomic, heffect] at hserve
        exact ⟨_, hserve.answer (List.mem_append_right _ List.mem_cons_self)⟩
      · rename_i object pending heffect
        obtain rfl := Option.some.inj h
        obtain ⟨hlt, -⟩ := List.getElem?_eq_some_iff.mp hindex
        simp only [atomic, heffect] at hserve
        exact ⟨_, hserve.look hlt (ordered.nodup_cons hindex).1 (ordered.below.1 _ (List.mem_of_getElem? hindex))
          (stable.pends (hallowed _ hindex op rfl) heffect) (List.mem_append_right _ List.mem_cons_self)⟩
    · cases h
  | lookup index =>
    simp only [step] at h
    split at h
    · rename_i id pending hindex
      obtain rfl := Option.some.inj h
      obtain ⟨-, op, hserved⟩ := ordered.looking id pending (List.mem_of_getElem? hindex)
      exact ⟨order, (ordered.leave index).answer hserved⟩
    · cases h
  | leave index =>
    obtain rfl := Option.some.inj h
    exact ⟨order, ordered.leave index⟩

/-- Every interleaving of the clients behaves like some order of calls that are each made in one step. -/
theorem linearizes_of_run (stable : Stable calls allowed known) {trace : List (Clients σ α β γ × Label α)}
    {last : Clients σ α β γ} (run : Run calls.step (.initial start) trace last)
    (along : Along (Allows allowed) trace) :
    ∃ order, Linearizes calls allowed start last.object last.history order := by
  have hordered : ∃ order, Ordered calls allowed known start last order := by
    apply run.invariant along
    · exact ⟨[], ordered_initial calls allowed known start⟩
    · intro before sys label next _ _ hallowed hstep hbefore
      obtain ⟨order, ordered⟩ := hbefore
      exact ordered.stepped stable hallowed hstep
  obtain ⟨order, ordered⟩ := hordered
  exact ⟨order, ordered.linearizes⟩

end Calls

end DecisionCore
