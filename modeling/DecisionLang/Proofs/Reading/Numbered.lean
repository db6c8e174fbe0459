import DecisionLang.Reading.Received
import Mathlib.Data.List.Forall2

/-!
# Readings that succeed

A reading either gives a result or fails, and spends numbers either way. `Numbered.Gives` follows
the numbers through a reading that succeeds, one rule for each way readings are put together, so
that readings are taken apart without running them. `Numbered.Spends` says of all readings, failed
ones included, that numbers are never given back.
-/

namespace DecisionLang.Numbered

variable {α β : Type} {next after : Nat}

/-- A reading succeeds, with the next number before and after it. -/
def Gives (reading : Numbered α) (next : Nat) (result : α) (after : Nat) : Prop :=
  (reading.run.run next : Except Diagnostic α × Nat) = (.ok result, after)

/-- A reading leaves numbers that are at least those it was given. -/
def Spends (reading : Numbered α) : Prop := ∀ next, next ≤ (reading.run.run next).2

theorem exists_gives {reading : Numbered α} (h : (reading.run.run next).1.isOk = true) :
    ∃ result after, reading.Gives next result after := by
  unfold Gives
  generalize reading.run.run next = outcome at h
  rcases outcome with ⟨diagnostic | result, after⟩
  · cases h
  · exact ⟨result, after, rfl⟩

/-- Readings that follow each other, for a list of items. -/
inductive InOrder (reads : α → Nat → β → Nat → Prop) : List α → Nat → List β → Nat → Prop
  | nil {next : Nat} : InOrder reads [] next [] next
  | cons {item : α} {items : List α} {next between after : Nat} {result : β} {results : List β}
      (hhead : reads item next result between)
      (htail : InOrder reads items between results after) :
      InOrder reads (item :: items) next (result :: results) after

theorem InOrder.append {reads : α → Nat → β → Nat → Prop} {items items' : List α}
    {results results' : List β} {between : Nat} (h : InOrder reads items next results between)
    (h' : InOrder reads items' between results' after) :
    InOrder reads (items ++ items') next (results ++ results') after := by
  induction h with
  | nil => exact h'
  | cons hhead _ ih => exact .cons hhead (ih h')

theorem InOrder.map {γ : Type} {reads : α → Nat → β → Nat → Prop}
    {reads' : γ → Nat → β → Nat → Prop} {f : α → γ} {items : List α} {results : List β}
    (hreads : ∀ item ∈ items, ∀ {next result after}, reads item next result after →
      reads' (f item) next result after)
    (h : InOrder reads items next results after) :
    InOrder reads' (items.map f) next results after := by
  induction h with
  | nil => exact .nil
  | cons hhead _ ih =>
    exact .cons (hreads _ List.mem_cons_self hhead)
      (ih fun item hitem => hreads item (List.mem_cons_of_mem _ hitem))

theorem InOrder.imp {reads reads' : α → Nat → β → Nat → Prop} {items : List α} {results : List β}
    (h : InOrder reads items next results after)
    (hreads : ∀ item {next result after}, reads item next result after →
      reads' item next result after) : InOrder reads' items next results after := by
  induction h with
  | nil => exact .nil
  | cons hhead _ ih => exact .cons (hreads _ hhead) ih

theorem InOrder.imp_of_mem {reads reads' : α → Nat → β → Nat → Prop} {items : List α}
    {results : List β} (h : InOrder reads items next results after)
    (hreads : ∀ item ∈ items, ∀ {next result after}, reads item next result after →
      reads' item next result after) : InOrder reads' items next results after := by
  have hmap := h.map (f := id) hreads
  rwa [List.map_id] at hmap

/-- What is true of each reading is true of all results. -/
theorem InOrder.forall_mem {reads : α → Nat → β → Nat → Prop} {holds : β → Prop} {items : List α}
    {results : List β} (h : InOrder reads items next results after)
    (hreads : ∀ {item next result after}, reads item next result after → holds result) :
    ∀ result ∈ results, holds result := by
  induction h with
  | nil => exact List.forall_mem_nil _
  | cons hhead _ ih => exact List.forall_mem_cons.2 ⟨hreads hhead, ih⟩

theorem InOrder.forall₂ {reads : α → Nat → β → Nat → Prop} {holds : α → β → Prop} {items : List α}
    {results : List β} (h : InOrder reads items next results after)
    (hreads : ∀ {item next result after}, reads item next result after → holds item result) :
    List.Forall₂ holds items results := by
  induction h with
  | nil => exact .nil
  | cons hhead _ ih => exact .cons (hreads hhead) ih

theorem InOrder.length_eq {reads : α → Nat → β → Nat → Prop} {items : List α} {results : List β}
    (h : InOrder reads items next results after) : items.length = results.length := by
  induction h with
  | nil => rfl
  | cons _ _ ih => rw [List.length_cons, List.length_cons, ih]

/-! ### Readings that succeed -/

@[simp] theorem gives_pure {value result : α} :
    (pure value : Numbered α).Gives next result after ↔ value = result ∧ next = after := by
  change ((Except.ok value, next) : Except Diagnostic α × Nat) = _ ↔ _
  simp

@[simp] theorem gives_throw {diagnostic : Diagnostic} {result : α} :
    (throw diagnostic : Numbered α).Gives next result after ↔ False := by
  change ((Except.error diagnostic, next) : Except Diagnostic α × Nat) = _ ↔ _
  simp

theorem run_bind {reading : Numbered α} {rest : α → Numbered β} :
    (reading >>= rest).run.run next =
      match reading.run.run next with
      | (.ok value, between) => (rest value).run.run between
      | (.error diagnostic, between) => (.error diagnostic, between) := by
  change (match reading next with
    | (outcome, between) => ExceptT.bindCont rest outcome between : Except Diagnostic β × Nat) =
      match reading next with
      | (.ok value, between) => rest value between
      | (.error diagnostic, between) => (.error diagnostic, between)
  rcases reading next with ⟨value | value, between⟩ <;> rfl

theorem gives_bind {reading : Numbered α} {rest : α → Numbered β} {result : β} :
    (reading >>= rest).Gives next result after ↔
      ∃ value between, reading.Gives next value between ∧
        (rest value).Gives between result after := by
  unfold Gives
  rw [run_bind]
  rcases reading.run.run next with ⟨diagnostic | value, between⟩
  · constructor
    · intro h
      cases h
    · rintro ⟨value, _, h, _⟩
      cases h
  · constructor
    · intro h
      exact ⟨value, between, rfl, h⟩
    · rintro ⟨_, _, hvalue, h⟩
      cases hvalue
      exact h

theorem gives_map {f : α → β} {reading : Numbered α} {result : β} :
    (f <$> reading).Gives next result after ↔
      ∃ value, reading.Gives next value after ∧ f value = result := by
  rw [map_eq_pure_bind, gives_bind]
  simp only [gives_pure]
  grind

@[simp] theorem gives_ofExcept {outcome : Except Diagnostic α} {result : α} :
    (MonadExcept.ofExcept outcome : Numbered α).Gives next result after ↔
      outcome = .ok result ∧ next = after := by
  cases outcome with
  | error diagnostic => simp [MonadExcept.ofExcept]
  | ok value => simp [MonadExcept.ofExcept]

@[simp] theorem gives_mark {line : Line} {token : Token} {mark : Mark} :
    (Numbered.mark line token).Gives next mark after ↔
      mark = ⟨next, line.tokenReference token⟩ ∧ after = next + 1 := by
  change ((Except.ok (Mark.mk next _), next + 1) : Except Diagnostic Mark × Nat) = _ ↔ _
  simp [eq_comm]

@[simp] theorem gives_fail {line : Line} {token : Token} {fault : Fault} {result : α} :
    (fail line token fault : Numbered α).Gives next result after ↔ False := gives_throw

@[simp] theorem gives_refuse {line : Line} {fault : Fault} {result : α} :
    (line.refuse fault : Numbered α).Gives next result after ↔ False := gives_throw

theorem gives_mapM {read : α → Numbered β} {items : List α} {results : List β} :
    (items.mapM read).Gives next results after →
      InOrder (fun item => (read item).Gives) items next results after := by
  induction items generalizing next results with
  | nil =>
    rw [List.mapM_nil, gives_pure]
    rintro ⟨rfl, rfl⟩
    exact .nil
  | cons item items ih =>
    simp only [List.mapM_cons, gives_bind, gives_pure]
    rintro ⟨result, _, hhead, tail, _, htail, rfl, rfl⟩
    exact .cons hhead (ih htail)

/-! ### Numbers are spent -/

theorem spends_pure (value : α) : (pure value : Numbered α).Spends := fun _ => Nat.le_refl _

theorem spends_throw (diagnostic : Diagnostic) : (throw diagnostic : Numbered α).Spends :=
  fun _ => Nat.le_refl _

theorem spends_bind {reading : Numbered α} {rest : α → Numbered β} (h : reading.Spends)
    (hrest : ∀ value, (rest value).Spends) : (reading >>= rest).Spends := by
  intro next
  rw [run_bind]
  have hfirst := h next
  generalize reading.run.run next = outcome at hfirst
  rcases outcome with ⟨diagnostic | value, between⟩
  · exact hfirst
  · exact Nat.le_trans hfirst (hrest value between)

theorem spends_map {f : α → β} {reading : Numbered α} (h : reading.Spends) :
    (f <$> reading).Spends := by
  rw [map_eq_pure_bind]
  exact spends_bind h fun _ => spends_pure _

theorem spends_ofExcept (outcome : Except Diagnostic α) :
    (MonadExcept.ofExcept outcome : Numbered α).Spends := by
  cases outcome with
  | error diagnostic => exact spends_throw diagnostic
  | ok value => exact spends_pure value

theorem spends_mark (line : Line) (token : Token) : (mark line token).Spends :=
  fun next => Nat.le_succ next

theorem spends_fail (line : Line) (token : Token) (fault : Fault) :
    (fail line token fault : Numbered α).Spends := spends_throw _

theorem spends_refuse (line : Line) (fault : Fault) : (line.refuse fault : Numbered α).Spends :=
  spends_throw _

theorem spends_mapM {read : α → Numbered β} (items : List α)
    (h : ∀ item ∈ items, (read item).Spends) : (items.mapM read).Spends := by
  induction items with
  | nil => exact spends_pure []
  | cons item items ih =>
    rw [List.mapM_cons]
    apply spends_bind (h item List.mem_cons_self)
    intro _
    exact spends_bind (ih fun other hother => h other (List.mem_cons_of_mem _ hother))
      fun _ => spends_pure _

theorem spends_option {read : α → Numbered β} (item? : Option α)
    (h : ∀ item ∈ item?, (read item).Spends) : (item?.mapM read).Spends := by
  cases item? with
  | none => exact spends_pure none
  | some item => exact spends_map (h item rfl)

end DecisionLang.Numbered
