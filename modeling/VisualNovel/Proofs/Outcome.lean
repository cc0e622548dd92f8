import Mathlib.Data.List.Forall2

/-!
# Steps that may fail

A reader or a check is a chain of steps in `Except`, and it succeeds exactly if each of its steps
does. The lemmas here take a chain apart into its steps, so that no proof about a particular reader
has to follow the error that it does not give.

* `bind_eq_ok`, `map_eq_ok` and `guard_eq_ok` are for one step.
* `FailsOnly` says what all errors of a chain have in common, again step by step.
* `mapM_eq_ok_iff` and `mapM_zipIdx_eq_ok_iff` are for one step for each element of a list.
-/

namespace VisualNovel.Outcome

variable {ε α β : Type}

/-! ## One step -/

theorem ok_bind (a : α) (f : α → Except ε β) : ((.ok a : Except ε α) >>= f) = f a := rfl

theorem pure_eq (a : α) : (pure a : Except ε α) = .ok a := rfl

/-- A chain succeeds just if its first step does and a later one does after it. -/
theorem bind_eq_ok {x : Except ε α} {f : α → Except ε β} {b : β} :
    (x >>= f) = .ok b ↔ ∃ a, x = .ok a ∧ f a = .ok b := by
  cases x with
  | error e => simp [bind, Except.bind]
  | ok a => simp [bind, Except.bind]

/-- A chain fails where its first step does, or where a later one does after the first. -/
theorem bind_eq_error {x : Except ε α} {f : α → Except ε β} {e : ε} :
    (x >>= f) = .error e ↔ x = .error e ∨ ∃ a, x = .ok a ∧ f a = .error e := by
  cases x with
  | error other => simp [bind, Except.bind]
  | ok a => simp [bind, Except.bind]

/-- What may be missing and is. -/
theorem forall_mem_none {p : α → Prop} : ∀ a ∈ (none : Option α), p a :=
  fun a h => absurd h (Option.not_mem_none a)

/-- A step may give nothing but its success. -/
theorem exists_unit {p : Unit → Prop} : (∃ u, p u) ↔ p () := Unique.exists_iff

/-- A changed outcome is a success just if the outcome was. -/
theorem map_eq_ok {x : Except ε α} {f : α → β} {b : β} :
    (f <$> x) = .ok b ↔ ∃ a, x = .ok a ∧ f a = b := by
  cases x with
  | error e => simp [Functor.map, Except.map]
  | ok a => simp [Functor.map, Except.map]

/-- A changed outcome is a success just if the outcome was. -/
theorem exceptMap_eq_ok {x : Except ε α} {f : α → β} {b : β} :
    x.map f = .ok b ↔ ∃ a, x = .ok a ∧ f a = b :=
  map_eq_ok

/-- A value that is given back is the one that was given. -/
theorem pure_eq_ok {a b : α} : (pure a : Except ε α) = .ok b ↔ a = b :=
  Except.ok.injEq a b ▸ Iff.rfl

/-- An error is no success. -/
theorem throw_eq_ok {e : ε} {a : α} : (throw e : Except ε α) = .ok a ↔ False :=
  ⟨nofun, nofun⟩

/-- What is no error is a success. -/
theorem exists_eq_ok {x : Except ε α} (h : x.toOption.isSome) : ∃ a, x = .ok a := by
  cases x with
  | error e => exact absurd h nofun
  | ok a => exact ⟨a, rfl⟩

/-- An outcome that is an error under a condition. -/
theorem unless_eq_ok {c : Prop} [Decidable c] {e : ε} {x : Except ε β} {b : β} :
    (if c then .error e else x) = .ok b ↔ ¬c ∧ x = .ok b := by
  by_cases h : c
  · rw [if_pos h]
    exact ⟨nofun, fun hb => absurd h hb.1⟩
  · rw [if_neg h]
    exact ⟨fun hb => ⟨h, hb⟩, And.right⟩

/-- A step that fails under a condition, where one more step follows. -/
theorem last_guard_eq_ok {c : Prop} [Decidable c] {e : ε} {x : Except ε β} {b : β} :
    (if c then throw e else x) = .ok b ↔ ¬c ∧ x = .ok b :=
  unless_eq_ok

/-- A step that fails under a condition, where more steps follow. -/
theorem guard_eq_ok {c : Prop} [Decidable c] {e : ε} {f : α → Except ε β} {x : Except ε β}
    {b : β} : (if c then throw e >>= f else x) = .ok b ↔ ¬c ∧ x = .ok b :=
  unless_eq_ok

/-- A step that fails unless a condition holds, and gives a value if it does. -/
theorem ite_eq_ok {c : Prop} [Decidable c] {a b : α} {e : ε} :
    (if c then .ok a else .error e : Except ε α) = .ok b ↔ c ∧ a = b := by
  by_cases h : c
  · rw [if_pos h, Except.ok.injEq]
    exact ⟨fun hb => ⟨h, hb⟩, And.right⟩
  · rw [if_neg h]
    exact ⟨nofun, fun hb => absurd hb.1 h⟩

/-! ## What may go wrong -/

/-- If an outcome is an error, the error satisfies a condition. -/
def FailsOnly (P : ε → Prop) (x : Except ε α) : Prop := ∀ e, x = .error e → P e

section FailsOnly

variable {P : ε → Prop}

/-- A success does not fail. -/
theorem failsOnly_ok (a : α) : FailsOnly P (.ok a) := nofun

/-- An error fails with nothing but itself. -/
theorem failsOnly_error {e : ε} (h : P e) : FailsOnly P (.error e : Except ε α) := by
  rintro _ ⟨⟩
  exact h

/-- Later steps of a chain are only taken once the earlier ones have succeeded. -/
theorem FailsOnly.bind {x : Except ε α} {f : α → Except ε β} (h : FailsOnly P x)
    (hnext : ∀ a, x = .ok a → FailsOnly P (f a)) : FailsOnly P (x >>= f) := by
  intro e he
  rcases bind_eq_error.mp he with hx | ⟨a, ha, hf⟩
  · exact h e hx
  · exact hnext a ha e hf

/-- Changing a success adds no errors. -/
theorem FailsOnly.map {x : Except ε α} (f : α → β) (h : FailsOnly P x) : FailsOnly P (f <$> x) := by
  cases x with
  | error e => exact failsOnly_error (h e rfl)
  | ok a => exact failsOnly_ok (f a)

/-- A step that fails under a condition, where more steps follow. -/
theorem failsOnly_guard {c : Prop} [Decidable c] {e : ε} {f : α → Except ε β} {x : Except ε β}
    (herror : c → P e) (hnext : ¬c → FailsOnly P x) :
    FailsOnly P (if c then throw e >>= f else x) := by
  split
  · next h => exact failsOnly_error (herror h)
  · next h => exact hnext h

end FailsOnly

/-! ## A step for each element -/

/-- If each element is related to something, the list is to a list. -/
theorem exists_forall₂ {R : α → β → Prop} {l : List α} (h : ∀ a ∈ l, ∃ b, R a b) :
    ∃ r, List.Forall₂ R l r := by
  induction l with
  | nil => exact ⟨[], List.Forall₂.nil⟩
  | cons a l ih =>
    rw [List.forall_mem_cons] at h
    obtain ⟨b, hb⟩ := h.1
    obtain ⟨r, hr⟩ := ih h.2
    exact ⟨b :: r, hr.cons hb⟩

/-- Two lists agree element by element just if they agree once changed. -/
theorem forall₂_eq_iff_map_eq {γ : Type} {f : α → γ} {g : β → γ} {l : List α} {r : List β} :
    List.Forall₂ (fun a b => f a = g b) l r ↔ l.map f = r.map g := by
  rw [← List.forall₂_eq_eq_eq, List.forall₂_map_left_iff, List.forall₂_map_right_iff]

/-- Each element on the right has one on the left. -/
theorem exists_mem_of_forall₂ {R : α → β → Prop} {l : List α} {r : List β}
    (h : List.Forall₂ R l r) {b : β} (hb : b ∈ r) : ∃ a ∈ l, R a b := by
  induction h with
  | nil => exact absurd hb List.not_mem_nil
  | cons hfirst _ ih =>
    rcases List.mem_cons.mp hb with rfl | hrest
    · exact ⟨_, List.mem_cons_self, hfirst⟩
    · obtain ⟨a, ha, hab⟩ := ih hrest
      exact ⟨a, List.mem_cons_of_mem _ ha, hab⟩

/-- Lists that are related by way of a third list are related. -/
theorem forall₂_comp {γ : Type} {R : α → β → Prop} {S : β → γ → Prop} {T : α → γ → Prop}
    (h : ∀ a b c, R a b → S b c → T a c) {l : List α} {m : List β} {r : List γ}
    (hl : List.Forall₂ R l m) (hr : List.Forall₂ S m r) : List.Forall₂ T l r := by
  induction hl generalizing r with
  | nil =>
    cases hr with
    | nil => exact List.Forall₂.nil
  | cons hfirst _ ih =>
    cases hr with
    | cons hsecond hrest => exact List.Forall₂.cons (h _ _ _ hfirst hsecond) (ih hrest)

/-- What relates elements to the same things relates their lists to the same lists. -/
theorem forall₂_iff_of_forall₂ {γ : Type} {R : α → γ → Prop} {S : β → γ → Prop} {l : List α}
    {m : List β} (h : List.Forall₂ (fun a b => ∀ c, R a c ↔ S b c) l m) {r : List γ} :
    List.Forall₂ R l r ↔ List.Forall₂ S m r := by
  induction h generalizing r with
  | nil => rw [List.forall₂_nil_left_iff, List.forall₂_nil_left_iff]
  | cons hfirst _ ih => simp only [List.forall₂_cons_left_iff, hfirst, ih]

/-- A step succeeds for each element of a list just if the results correspond to the elements. -/
theorem mapM_eq_ok_iff {f : α → Except ε β} {l : List α} {r : List β} :
    l.mapM f = .ok r ↔ List.Forall₂ (fun a b => f a = .ok b) l r := by
  induction l generalizing r with
  | nil =>
    rw [List.mapM_nil, pure_eq_ok, List.forall₂_nil_left_iff]
    exact eq_comm
  | cons a l ih =>
    simp only [List.mapM_cons, bind_eq_ok, pure_eq_ok, ih, List.forall₂_cons_left_iff]
    constructor
    · rintro ⟨b, hb, r', hr', rfl⟩
      exact ⟨b, r', hb, hr', rfl⟩
    · rintro ⟨b, r', hb, hr', rfl⟩
      exact ⟨b, hb, r', hr', rfl⟩

/-- An element for which there is nothing leaves nothing for the list. -/
theorem mapM_eq_some_iff {f : α → Option β} {l : List α} {r : List β} :
    l.mapM f = some r ↔ List.Forall₂ (fun a b => f a = some b) l r := by
  induction l generalizing r with
  | nil =>
    rw [List.mapM_nil, Option.pure_def, Option.some.injEq, List.forall₂_nil_left_iff]
    exact eq_comm
  | cons a l ih =>
    simp only [List.mapM_cons, Option.bind_eq_bind, Option.bind_eq_some_iff, Option.pure_def,
      Option.some.injEq, ih, List.forall₂_cons_left_iff]
    constructor
    · rintro ⟨b, hb, r', hr', rfl⟩
      exact ⟨b, r', hb, hr', rfl⟩
    · rintro ⟨b, r', hb, hr', rfl⟩
      exact ⟨b, hb, r', hr', rfl⟩

/-- What fails for a list fails so for an element of it. -/
theorem exists_mem_of_mapM_eq_error {f : α → Except ε β} {l : List α} {e : ε}
    (h : l.mapM f = .error e) : ∃ a ∈ l, f a = .error e := by
  induction l with
  | nil => exact absurd h nofun
  | cons a l ih =>
    rw [List.mapM_cons, bind_eq_error] at h
    rcases h with hfirst | ⟨b, -, h⟩
    · exact ⟨a, List.mem_cons_self, hfirst⟩
    · rw [bind_eq_error] at h
      rcases h with hrest | ⟨r, -, h⟩
      · obtain ⟨other, hother, hfail⟩ := ih hrest
        exact ⟨other, List.mem_cons_of_mem _ hother, hfail⟩
      · exact absurd h nofun

/-! ## A step for each element and its place -/

/-- If a step fails for a list with its places, it fails for one of the elements. -/
theorem exists_getElem?_of_mapM_zipIdx_eq_error {f : α × Nat → Except ε β} {l : List α} {e : ε}
    (h : l.zipIdx.mapM f = .error e) : ∃ i a, l[i]? = some a ∧ f (a, i) = .error e := by
  obtain ⟨⟨a, i⟩, hmem, hfail⟩ := exists_mem_of_mapM_eq_error h
  exact ⟨i, a, List.mem_zipIdx_iff_getElem?.mp hmem, hfail⟩

/-- A step succeeds for a list with its places just if it does at every place. -/
theorem mapM_zipIdx_eq_ok_iff {f : α × Nat → Except ε β} {l : List α} {r : List β} :
    l.zipIdx.mapM f = .ok r ↔
      l.length = r.length ∧ ∀ i a b, l[i]? = some a → r[i]? = some b → f (a, i) = .ok b := by
  rw [mapM_eq_ok_iff, List.forall₂_iff_get]
  refine and_congr (by rw [List.length_zipIdx]) ⟨fun h i a b ha hb => ?_, fun h i hi hr => ?_⟩
  · obtain ⟨hi, rfl⟩ := List.getElem?_eq_some_iff.mp ha
    obtain ⟨hr, rfl⟩ := List.getElem?_eq_some_iff.mp hb
    simpa using h i (by simpa using hi) hr
  · rw [List.length_zipIdx] at hi
    simpa using h i _ _ (List.getElem?_eq_getElem hi) (List.getElem?_eq_getElem hr)

/-- If what a step gives does not depend on the place, the list is gone through element by
element. -/
theorem mapM_zipIdx_of_forall₂ {f : α × Nat → Except ε β} {l : List α} {r : List β}
    (h : List.Forall₂ (fun a b => ∀ i, f (a, i) = .ok b) l r) : l.zipIdx.mapM f = .ok r := by
  rw [mapM_zipIdx_eq_ok_iff]
  refine ⟨h.length_eq, fun i a b ha hb => ?_⟩
  obtain ⟨hi, rfl⟩ := List.getElem?_eq_some_iff.mp ha
  obtain ⟨hr, rfl⟩ := List.getElem?_eq_some_iff.mp hb
  exact h.get hi hr i

end VisualNovel.Outcome
