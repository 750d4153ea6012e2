import Mathlib.Data.List.Basic
import Mathlib.Logic.Function.Basic

set_option relaxedAutoImplicit false
set_option autoImplicit false

/-!
# A versioned object

One named object of an object store. Every replacement creates a new generation; an appendable
upload extends the generation it was opened on, also if that is not the current one any more; a
read is of one generation. An upload may carry a precondition on the current generation, which is
checked when it is finalised.

## Main definitions

* `SqliteGcs.ObjectStore` — the generations of the object and which of them is current.
* `append`, `flush`, `create`, `lose`, `replaceIf` — the operations.
* `SqliteGcs.ObjectStore.Grown` — a store that others have only added generations to.

## Main results

* `SqliteGcs.ObjectStore.grown_create` — replacing leaves the older generations alone.
* `SqliteGcs.ObjectStore.replaceIf_eq_some` — when a conditional replacement takes place.
-/

namespace SqliteGcs

/-- The generations of one object. -/
structure ObjectStore (α : Type*) where
  /-- The contents of each generation. -/
  contents : ℕ → List α
  /-- How much of each generation survives a crash. -/
  durable : ℕ → ℕ
  /-- The number of the next generation. -/
  next : ℕ
  /-- The current generation, if the object exists. -/
  live : Option ℕ
  /-- The current generation exists. -/
  live_lt : ∀ g ∈ live, g < next
  /-- What survives a crash is a first part of the contents. -/
  durable_le : ∀ g, durable g ≤ (contents g).length

namespace ObjectStore

variable {α : Type*}

/-- The object does not exist. -/
def empty : ObjectStore α := ⟨fun _ => [], fun _ => 0, 0, none, by simp, by simp⟩

/-- Extend a generation. -/
def append (g : ℕ) (data : List α) (s : ObjectStore α) : ObjectStore α :=
  { s with
    contents := Function.update s.contents g (s.contents g ++ data)
    durable_le := by
      intro h
      have hle := s.durable_le h
      by_cases hg : h = g
      · subst hg
        rw [Function.update_self, List.length_append]
        omega
      · rwa [Function.update_of_ne hg] }

/-- Make all of a generation durable. -/
def flush (g : ℕ) (s : ObjectStore α) : ObjectStore α :=
  { s with
    durable := Function.update s.durable g (s.contents g).length
    durable_le := by
      intro h
      by_cases hg : h = g
      · subst hg
        exact Nat.le_of_eq (Function.update_self ..)
      · rw [Function.update_of_ne hg]
        exact s.durable_le h }

/-- Create a new generation, which becomes the current one. -/
def create (data : List α) (s : ObjectStore α) : ObjectStore α where
  contents := Function.update s.contents s.next data
  durable := Function.update s.durable s.next data.length
  next := s.next + 1
  live := some s.next
  live_lt := by simp
  durable_le := by
    intro h
    by_cases hg : h = s.next
    · subst hg
      exact Nat.le_of_eq (by rw [Function.update_self, Function.update_self])
    · rw [Function.update_of_ne hg, Function.update_of_ne hg]
      exact s.durable_le h

/-- Lose what a generation holds behind a first part, all of which is durable then. -/
def lose (g n : ℕ) (s : ObjectStore α) : ObjectStore α where
  contents := Function.update s.contents g ((s.contents g).take n)
  durable := Function.update s.durable g ((s.contents g).take n).length
  next := s.next
  live := s.live
  live_lt := s.live_lt
  durable_le := by
    intro h
    by_cases hg : h = g
    · subst hg
      exact Nat.le_of_eq (by rw [Function.update_self, Function.update_self])
    · rw [Function.update_of_ne hg, Function.update_of_ne hg]
      exact s.durable_le h

/-- Replace the object if the given generation is the current one. -/
def replaceIf (g : ℕ) (data : List α) (s : ObjectStore α) : Option (ObjectStore α) :=
  if s.live = some g then some (s.create data) else none

/-- The contents of the current generation. -/
def current (s : ObjectStore α) : Option (List α) := s.live.map s.contents

/-- The contents of a generation that was extended. -/
@[simp] lemma contents_append_self (g : ℕ) (data : List α) (s : ObjectStore α) :
    (s.append g data).contents g = s.contents g ++ data :=
  Function.update_self ..

/-- Extending a generation leaves the others alone. -/
lemma contents_append_of_ne {g h : ℕ} (hne : h ≠ g) (data : List α) (s : ObjectStore α) :
    (s.append g data).contents h = s.contents h :=
  Function.update_of_ne hne ..

/-- What is durable after a flush. -/
@[simp] lemma durable_flush_self (g : ℕ) (s : ObjectStore α) :
    (s.flush g).durable g = (s.contents g).length :=
  Function.update_self ..

/-- The contents of a new generation. -/
@[simp] lemma contents_create_self (data : List α) (s : ObjectStore α) :
    (s.create data).contents s.next = data :=
  Function.update_self ..

/-- **A conditional replacement** takes place if the given generation is the current one. -/
lemma replaceIf_eq_some {g : ℕ} {data : List α} {s s' : ObjectStore α} :
    s.replaceIf g data = some s' ↔ s.live = some g ∧ s' = s.create data := by
  unfold replaceIf
  by_cases h : s.live = some g
  · rw [if_pos h, Option.some_inj]
    exact ⟨fun heq => ⟨h, heq.symm⟩, fun heq => heq.2.symm⟩
  · rw [if_neg h]
    exact ⟨(nomatch ·), fun heq => absurd heq.1 h⟩

/-! ## What others leave alone -/

/-- The generations that exist are as they were: the store may only have new ones. -/
def Grown (s s' : ObjectStore α) : Prop :=
  ∀ g < s.next, g < s'.next ∧ s'.contents g = s.contents g ∧ s'.durable g = s.durable g

/-- A store has grown from itself. -/
lemma Grown.refl (s : ObjectStore α) : Grown s s := fun _ hg => ⟨hg, rfl, rfl⟩

/-- A store that has grown twice has grown. -/
lemma Grown.trans {s₁ s₂ s₃ : ObjectStore α} (h : Grown s₁ s₂) (h' : Grown s₂ s₃) :
    Grown s₁ s₃ := by
  intro g hg
  obtain ⟨h1, h2, h3⟩ := h g hg
  obtain ⟨h1', h2', h3'⟩ := h' g h1
  exact ⟨h1', h2'.trans h2, h3'.trans h3⟩

/-- **Replacing leaves the older generations alone.** -/
lemma grown_create (data : List α) (s : ObjectStore α) : Grown s (s.create data) := fun _ hg =>
  ⟨Nat.lt_succ_of_lt hg, Function.update_of_ne (Nat.ne_of_lt hg) ..,
    Function.update_of_ne (Nat.ne_of_lt hg) ..⟩

end ObjectStore

end SqliteGcs
