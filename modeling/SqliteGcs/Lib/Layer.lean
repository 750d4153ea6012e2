import SqliteGcs.Lib.Simulation

set_option relaxedAutoImplicit false
set_option autoImplicit false

/-!
# A machine in front of another

A machine may stand in front of another one with the same inputs: it answers some of them by itself
and passes on the rest. What the machine behind does is then a run of its own, on the inputs that
are passed on, and the machine in front never looks at it.

## Main definitions

* `Machine.layered` — the two machines together.
* `Machine.passedOn` — the inputs of a run that are passed on.

## Main results

* `Machine.final_layered` — the machine behind makes the run of what is passed on.
-/

namespace Machine

variable {ι ρ σ τ : Type*}

/-- A machine in front of another: it answers an input, or else passes it on. -/
def layered (front : ι → τ → Option (ρ × τ)) (back : ι → σ → ρ × σ) (i : ι) (s : τ × σ) :
    ρ × (τ × σ) :=
  match front i s.1 with
  | some (reply, t) => (reply, (t, s.2))
  | none => ((back i s.2).1, (s.1, (back i s.2).2))

/-- The inputs of a run that the machine in front passes on. -/
def passedOn (front : ι → τ → Option (ρ × τ)) : List ι → τ → List ι
  | [], _ => []
  | i :: is, t =>
    match front i t with
    | some (_, t') => passedOn front is t'
    | none => i :: passedOn front is t

section Layered

variable {front : ι → τ → Option (ρ × τ)} {back : ι → σ → ρ × σ}

lemma layered_of_some {i : ι} {s : τ × σ} {reply : ρ} {t : τ} (h : front i s.1 = some (reply, t)) :
    layered front back i s = (reply, (t, s.2)) := by
  rw [layered, h]

lemma layered_of_none {i : ι} {s : τ × σ} (h : front i s.1 = none) :
    layered front back i s = ((back i s.2).1, (s.1, (back i s.2).2)) := by
  rw [layered, h]

/-- **The machine behind makes the run of what is passed on.** -/
theorem final_layered (is : List ι) (s : τ × σ) :
    (final (layered front back) is s).2 = final back (passedOn front is s.1) s.2 := by
  induction is generalizing s with
  | nil => rfl
  | cons i is ih =>
    show (final (layered front back) is (layered front back i s).2).2 = _
    rw [ih, passedOn]
    cases hi : front i s.1 with
    | some r => rw [layered_of_some hi]
    | none =>
      rw [layered_of_none hi]
      rfl

end Layered

end Machine
