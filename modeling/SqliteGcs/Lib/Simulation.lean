import Mathlib.Data.List.Basic

set_option relaxedAutoImplicit false
set_option autoImplicit false

/-!
# Machines with replies

A machine answers each input with a reply and goes on in a new state. Two machines are compared by
the replies that an observer gets, who may not see all inputs: inputs that the observer does not
see may be made by one machine and not by the other, as long as they keep the two related.

## Main definitions

* `Machine.final`, `Machine.replies` — the state after some inputs, and the replies to them.
* `Machine.observed` — the replies to the inputs that an observer sees.
* `Machine.Simulation` — a relation that related machines keep, with equal replies.
* `Machine.SilentSimulation` — the same, where unseen inputs keep it on either side.
* `Machine.Along` — a condition on the inputs of a run, each in the state that it is made in.
* `Machine.GuardedSimulation` — a relation that the inputs with such a condition keep.

## Main results

* `Machine.final_induction` — what every step keeps holds at the end.
* `Machine.Simulation.replies_eq` — related machines reply alike.
* `Machine.SilentSimulation.observed_eq` — so do they if their inputs differ in unseen ones.
* `Machine.GuardedSimulation.observed_eq` — so do they if their inputs meet the condition.
-/

namespace Machine

variable {ι ρ σ τ : Type*}

/-- The state after some inputs. -/
def final (step : ι → σ → ρ × σ) (is : List ι) (s : σ) : σ :=
  is.foldl (fun s i => (step i s).2) s

/-- The replies to some inputs. -/
def replies (step : ι → σ → ρ × σ) : List ι → σ → List ρ
  | [], _ => []
  | i :: is, s => (step i s).1 :: replies step is (step i s).2

/-- The replies to those of some inputs that an observer sees. -/
def observed (step : ι → σ → ρ × σ) (visible : ι → Bool) : List ι → σ → List ρ
  | [], _ => []
  | i :: is, s =>
    if visible i then (step i s).1 :: observed step visible is (step i s).2
    else observed step visible is (step i s).2

/-- **Induction over the inputs**: what every step keeps holds at the end. -/
lemma final_induction {step : ι → σ → ρ × σ} {I : σ → Prop}
    (hstep : ∀ i s, I s → I (step i s).2) (is : List ι) {s : σ} (h : I s) :
    I (final step is s) := by
  induction is generalizing s with
  | nil => exact h
  | cons i is ih => exact ih (hstep i s h)

/-- A run in two parts. -/
lemma final_append (step : ι → σ → ρ × σ) (is js : List ι) (s : σ) :
    final step (is ++ js) s = final step js (final step is s) := List.foldl_append ..

/-! ## Simulations -/

/-- A relation between the states of two machines that every input keeps, with equal replies. -/
structure Simulation (step : ι → σ → ρ × σ) (step' : ι → τ → ρ × τ) where
  /-- The relation. -/
  R : σ → τ → Prop
  step_related : ∀ i s t, R s t → (step i s).1 = (step' i t).1 ∧ R (step i s).2 (step' i t).2

/-- **Related machines reply alike**, and stay related. -/
theorem Simulation.replies_eq {step : ι → σ → ρ × σ} {step' : ι → τ → ρ × τ}
    (sim : Simulation step step') (is : List ι) {s : σ} {t : τ} (h : sim.R s t) :
    replies step is s = replies step' is t ∧ sim.R (final step is s) (final step' is t) := by
  induction is generalizing s t with
  | nil => exact ⟨rfl, h⟩
  | cons i is ih =>
    obtain ⟨hreply, hnext⟩ := sim.step_related i s t h
    obtain ⟨hrest, hfinal⟩ := ih hnext
    exact ⟨by rw [replies, replies, hreply, hrest], hfinal⟩

/-- A relation between the states of two machines that the inputs an observer sees keep, with equal
replies, and that the others keep whichever of the two makes them. -/
structure SilentSimulation (step : ι → σ → ρ × σ) (step' : ι → τ → ρ × τ)
    (visible : ι → Bool) where
  /-- The relation. -/
  R : σ → τ → Prop
  step_related : ∀ i s t, visible i = true → R s t →
    (step i s).1 = (step' i t).1 ∧ R (step i s).2 (step' i t).2
  silent_left : ∀ i s t, visible i = false → R s t → R (step i s).2 t
  silent_right : ∀ i s t, visible i = false → R s t → R s (step' i t).2

section Silent

variable {step : ι → σ → ρ × σ} {step' : ι → τ → ρ × τ} {visible : ι → Bool}

/-- Unseen inputs to the second machine keep the relation, and an observer gets nothing. -/
lemma SilentSimulation.silent_inputs (sim : SilentSimulation step step' visible) {js : List ι}
    (hjs : ∀ j ∈ js, visible j = false) {s : σ} {t : τ} (h : sim.R s t) :
    observed step' visible js t = [] ∧ sim.R s (final step' js t) := by
  induction js generalizing t with
  | nil => exact ⟨rfl, h⟩
  | cons j js ih =>
    have hj := hjs j List.mem_cons_self
    have hnext := sim.silent_right j s t hj h
    rw [observed, hj]
    exact ih (fun k hk => hjs k (List.mem_cons_of_mem j hk)) hnext

/-- What an observer gets after inputs that it does not see. -/
lemma observed_append_silent {js : List ι} (hjs : ∀ j ∈ js, visible j = false) (is : List ι)
    (t : τ) : observed step' visible (js ++ is) t =
      observed step' visible is (final step' js t) := by
  induction js generalizing t with
  | nil => rfl
  | cons j js ih =>
    rw [List.cons_append, observed, hjs j List.mem_cons_self]
    exact ih (fun k hk => hjs k (List.mem_cons_of_mem j hk)) _

/-- **Related machines reply alike to what an observer sees**, if the inputs that it sees are the
same.

**Proof sketch.** Induction on the inputs of the first machine. At an input that the observer sees,
the second machine first makes the unseen inputs in front of the same one. -/
theorem SilentSimulation.observed_eq (sim : SilentSimulation step step' visible)
    {is js : List ι} (hij : is.filter visible = js.filter visible) {s : σ} {t : τ}
    (h : sim.R s t) : observed step visible is s = observed step' visible js t := by
  induction is generalizing js s t with
  | nil =>
    have hjs : ∀ j ∈ js, visible j = false := by
      intro j hj
      have := (List.filter_eq_nil_iff.mp hij.symm) j hj
      simpa using this
    rw [observed, (sim.silent_inputs hjs h).1]
  | cons i is ih =>
    cases hi : visible i with
    | false =>
      rw [List.filter_cons_of_neg (by simp [hi])] at hij
      rw [observed, hi]
      exact ih hij (sim.silent_left i s t hi h)
    | true =>
      rw [List.filter_cons_of_pos hi] at hij
      obtain ⟨js₁, js₂, rfl, hjs₁, -, hjs₂⟩ := List.filter_eq_cons_iff.mp hij.symm
      have hsilent : ∀ j ∈ js₁, visible j = false := fun j hj => by simpa using hjs₁ j hj
      obtain ⟨hreply, hnext⟩ := sim.step_related i s _ hi (sim.silent_inputs hsilent h).2
      rw [observed_append_silent hsilent, observed, observed, hi, if_pos rfl, if_pos rfl, hreply,
        ih hjs₂.symm hnext]

end Silent

/-! ## Conditions on the inputs -/

/-- Every input of a run meets a condition in the state that it is made in. -/
def Along (step : ι → σ → ρ × σ) (ok : ι → σ → Prop) : List ι → σ → Prop
  | [], _ => True
  | i :: is, s => ok i s ∧ Along step ok is (step i s).2

/-- An observer that sees all inputs gets all replies. -/
lemma observed_true (step : ι → σ → ρ × σ) (is : List ι) (s : σ) :
    observed step (fun _ => true) is s = replies step is s := by
  induction is generalizing s with
  | nil => rfl
  | cons i is ih => rw [observed, replies, if_pos rfl, ih]

/-- Machines that give the same replies look the same to every observer. -/
lemma observed_congr {step : ι → σ → ρ × σ} {step' : ι → τ → ρ × τ} {is : List ι} {s : σ} {t : τ}
    (h : replies step is s = replies step' is t) (visible : ι → Bool) :
    observed step visible is s = observed step' visible is t := by
  induction is generalizing s t with
  | nil => rfl
  | cons i is ih =>
    rw [replies, replies] at h
    obtain ⟨hreply, hrest⟩ := List.cons.inj h
    rw [observed, observed, hreply, ih hrest]

/-- A relation between the states of two machines that every input keeps which meets a condition in
the state of the second, with equal replies to those that an observer sees. -/
structure GuardedSimulation (step : ι → σ → ρ × σ) (step' : ι → τ → ρ × τ)
    (visible : ι → Bool) (ok : ι → τ → Prop) where
  /-- The relation. -/
  R : σ → τ → Prop
  step_related : ∀ i s t, ok i t → R s t →
    (visible i = true → (step i s).1 = (step' i t).1) ∧ R (step i s).2 (step' i t).2

section Guarded

variable {step : ι → σ → ρ × σ} {step' : ι → τ → ρ × τ} {visible : ι → Bool} {ok : ι → τ → Prop}

/-- **Related machines reply alike to inputs that meet the condition**, and stay related. -/
theorem GuardedSimulation.observed_eq (sim : GuardedSimulation step step' visible ok) {is : List ι}
    {s : σ} {t : τ} (hok : Along step' ok is t) (h : sim.R s t) :
    observed step visible is s = observed step' visible is t ∧
      sim.R (final step is s) (final step' is t) := by
  induction is generalizing s t with
  | nil => exact ⟨rfl, h⟩
  | cons i is ih =>
    obtain ⟨hreply, hnext⟩ := sim.step_related i s t hok.1 h
    obtain ⟨hrest, hfinal⟩ := ih hok.2 hnext
    refine ⟨?_, hfinal⟩
    rw [observed, observed]
    split_ifs with hvisible
    · rw [hreply hvisible, hrest]
    · exact hrest

end Guarded

end Machine
