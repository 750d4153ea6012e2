import SqliteGcs.Lib.Simulation

set_option relaxedAutoImplicit false
set_option autoImplicit false

/-!
# Computations in lockstep

Two computations on states of different types that return the same value and stay related, unless
the first one is spoiled on the way. A state that is spoiled stays so, so that it is enough to look
at the end. Lockstep goes through composition, which makes it a rule for programs over an interface
with two implementations: if the operations of the interface are in lockstep, so are the programs.

## Main definitions

* `Machine.Lockstep` — two computations in lockstep.
* `Machine.andThen` — go on with the value of a computation unless it is an error.

## Main results

* `Machine.Lockstep.andThen` — lockstep goes through composition.
* `Machine.Lockstep.replies_eq` — machines whose steps are in lockstep reply alike.
-/

namespace Machine

variable {ι α β γ ε σ τ : Type*} {R : σ → τ → Prop} {Bad : σ → Prop}

/-- **Two computations in lockstep**: on related states they return the same value and leave
related states, unless the first one leaves a state that is spoiled. -/
structure Lockstep (R : σ → τ → Prop) (Bad : σ → Prop) (f : σ → α × σ) (g : τ → α × τ) :
    Prop where
  bad : ∀ s, Bad s → Bad (f s).2
  agree : ∀ s t, R s t → ¬ Bad (f s).2 → (f s).1 = (g t).1 ∧ R (f s).2 (g t).2

/-- Go on with the value of a computation unless it is an error. -/
def andThen (f : σ → Except ε α × σ) (F : α → σ → Except ε β × σ) (s : σ) : Except ε β × σ :=
  match f s with
  | (.error e, s) => (.error e, s)
  | (.ok a, s) => F a s

/-- What two computations leave alone, their composition does. -/
lemma andThen_frame {f : σ → Except ε α × σ} {F : α → σ → Except ε β × σ} {φ : σ → γ}
    (hf : ∀ s, φ (f s).2 = φ s) (hF : ∀ a s, φ (F a s).2 = φ s) (s : σ) :
    φ (andThen f F s).2 = φ s := by
  have hs := hf s
  rw [andThen]
  generalize f s = p at hs ⊢
  obtain ⟨e | a, s₁⟩ := p
  · exact hs
  · exact (hF a s₁).trans hs

namespace Lockstep

/-- Computations that do nothing are in lockstep. -/
lemma pure (a : α) : Lockstep R Bad (fun s => (a, s)) (fun t => (a, t)) where
  bad _ h := h
  agree _ _ h _ := ⟨rfl, h⟩

/-- **Lockstep goes through composition.** -/
lemma andThen {f : σ → Except ε α × σ} {g : τ → Except ε α × τ} (hf : Lockstep R Bad f g)
    {F : α → σ → Except ε β × σ} {G : α → τ → Except ε β × τ}
    (hF : ∀ a, Lockstep R Bad (F a) (G a)) :
    Lockstep R Bad (Machine.andThen f F) (Machine.andThen g G) where
  bad s h := by
    have hs := hf.bad s h
    unfold Machine.andThen
    generalize f s = p at hs ⊢
    obtain ⟨r, s₁⟩ := p
    cases r with
    | error e => exact hs
    | ok a => exact (hF a).bad s₁ hs
  agree s t h hbad := by
    have hst := hf.agree s t h
    unfold Machine.andThen at hbad ⊢
    generalize f s = p at hst hbad ⊢
    generalize g t = q at hst ⊢
    obtain ⟨r, s₁⟩ := p
    obtain ⟨r', t₁⟩ := q
    cases r with
    | error e =>
      obtain ⟨rfl, hR⟩ := hst hbad
      exact ⟨rfl, hR⟩
    | ok a =>
      obtain ⟨rfl, hR⟩ := hst fun hs => hbad ((hF a).bad s₁ hs)
      exact (hF a).agree s₁ t₁ hR hbad

/-- Values may be changed alike. -/
lemma map {f : σ → α × σ} {g : τ → α × τ} (h : Lockstep R Bad f g) (φ : α → β) :
    Lockstep R Bad (fun s => (φ (f s).1, (f s).2)) (fun t => (φ (g t).1, (g t).2)) where
  bad s hs := h.bad s hs
  agree s t hst hbad := by
    obtain ⟨h1, h2⟩ := h.agree s t hst hbad
    exact ⟨congrArg φ h1, h2⟩

/-- Computations may look at a part of the state that related states have in common. -/
lemma look {f : γ → σ → α × σ} {g : γ → τ → α × τ}
    (h : ∀ c, Lockstep R Bad (f c) (g c)) {φ : σ → γ} {ψ : τ → γ}
    (hφ : ∀ s t, R s t → φ s = ψ t) :
    Lockstep R Bad (fun s => f (φ s) s) (fun t => g (ψ t) t) where
  bad s hs := (h (φ s)).bad s hs
  agree s t hst hbad := by
    have heq := hφ s t hst
    rw [← heq]
    exact (h (φ s)).agree s t hst hbad

/-- Computations may check what related states agree on. -/
lemma ite {f f' : σ → α × σ} {g g' : τ → α × τ} {p : σ → Prop} {q : τ → Prop} [DecidablePred p]
    [DecidablePred q] (h : Lockstep R Bad f g) (hpq : ∀ s t, R s t → (p s ↔ q t))
    (h' : Lockstep R Bad f' g') :
    Lockstep R Bad (fun s => if p s then f s else f' s) (fun t => if q t then g t else g' t) where
  bad s hs := by
    split_ifs
    · exact h.bad s hs
    · exact h'.bad s hs
  agree s t hst hbad := by
    by_cases hp : p s
    · have hq := (hpq s t hst).mp hp
      rw [if_pos hp] at hbad ⊢
      rw [if_pos hq]
      exact h.agree s t hst hbad
    · have hq := mt (hpq s t hst).mpr hp
      rw [if_neg hp] at hbad ⊢
      rw [if_neg hq]
      exact h'.agree s t hst hbad

/-- A change of the states in front of computations in lockstep. -/
lemma comp {f : σ → α × σ} {g : τ → α × τ} (h : Lockstep R Bad f g) {u : σ → σ} {v : τ → τ}
    (hbad : ∀ s, Bad s → Bad (u s)) (hR : ∀ s t, R s t → R (u s) (v t)) :
    Lockstep R Bad (fun s => f (u s)) (fun t => g (v t)) where
  bad s hs := h.bad (u s) (hbad s hs)
  agree s t hst := h.agree (u s) (v t) (hR s t hst)

/-- **Machines whose steps are in lockstep reply alike**, if the first one ends unspoiled.

**Proof sketch.** Induction on the inputs. A machine that is unspoiled at the end has been so all
the time. -/
theorem replies_eq {step : ι → σ → α × σ} {step' : ι → τ → α × τ}
    (h : ∀ i, Lockstep R Bad (step i) (step' i)) (is : List ι) {s : σ} {t : τ} (hst : R s t)
    (hbad : ¬ Bad (final step is s)) :
    replies step is s = replies step' is t ∧ R (final step is s) (final step' is t) := by
  induction is generalizing s t with
  | nil => exact ⟨rfl, hst⟩
  | cons i is ih =>
    have hnext : ¬ Bad (step i s).2 := fun hs =>
      hbad (final_induction (fun j s => (h j).bad s) is hs)
    obtain ⟨hreply, hR⟩ := (h i).agree s t hst hnext
    obtain ⟨hrest, hfinal⟩ := ih hR hbad
    exact ⟨by rw [replies, replies, hreply, hrest], hfinal⟩

/-- Machines whose steps are in lockstep simulate each other if no state is spoiled. -/
def simulation {step : ι → σ → α × σ} {step' : ι → τ → α × τ}
    (h : ∀ i, Lockstep R (fun _ => False) (step i) (step' i)) : Simulation step step' where
  R := R
  step_related i s t hst := (h i).agree s t hst id

end Lockstep

end Machine
