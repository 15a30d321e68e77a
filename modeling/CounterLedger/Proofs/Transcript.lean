/-
Runs of anything that serves requests one after the other. A run is its replies in order and the
state after the last request; what one request keeps between two servers, a run keeps.
-/
import Mathlib.Data.List.Forall2

namespace CounterLedger

variable {ι ρ σ ρ' τ : Type}

/-- Serves the requests in order: their replies, and the state after the last one. -/
def transcript (serve : ι → σ → ρ × σ) : List ι → σ → List ρ × σ
  | [], st => ([], st)
  | i :: rest, st =>
    ((serve i st).1 :: (transcript serve rest (serve i st).2).1, (transcript serve rest (serve i st).2).2)

/-- A relation between states that each of the requests keeps, with replies that are related, is
kept by the whole run, and all replies are related. -/
theorem transcript_related {serve : ι → σ → ρ × σ} {serve' : ι → τ → ρ' × τ} {R : σ → τ → Prop}
    {Q : ρ → ρ' → Prop} {is : List ι}
    (step : ∀ i ∈ is, ∀ st tt, R st tt → Q (serve i st).1 (serve' i tt).1 ∧ R (serve i st).2 (serve' i tt).2)
    {st : σ} {tt : τ} (h : R st tt) :
    List.Forall₂ Q (transcript serve is st).1 (transcript serve' is tt).1 ∧
      R (transcript serve is st).2 (transcript serve' is tt).2 := by
  induction is generalizing st tt with
  | nil => exact ⟨.nil, h⟩
  | cons i rest ih =>
    obtain ⟨hq, hr⟩ := step i List.mem_cons_self st tt h
    obtain ⟨hqs, hr'⟩ := ih (fun j hj => step j (List.mem_cons_of_mem _ hj)) hr
    exact ⟨.cons hq hqs, hr'⟩

/-- Two servers whose replies are equal give the same replies in a run. -/
theorem transcript_replies {serve : ι → σ → ρ × σ} {serve' : ι → τ → ρ × τ} {R : σ → τ → Prop} {is : List ι}
    (step : ∀ i ∈ is, ∀ st tt, R st tt → (serve i st).1 = (serve' i tt).1 ∧ R (serve i st).2 (serve' i tt).2)
    {st : σ} {tt : τ} (h : R st tt) :
    (transcript serve is st).1 = (transcript serve' is tt).1 ∧
      R (transcript serve is st).2 (transcript serve' is tt).2 := by
  have hrelated := transcript_related (Q := Eq) step h
  rwa [List.forall₂_eq_eq_eq] at hrelated

theorem transcript_append (serve : ι → σ → ρ × σ) (is js : List ι) (st : σ) :
    transcript serve (is ++ js) st =
      ((transcript serve is st).1 ++ (transcript serve js (transcript serve is st).2).1,
        (transcript serve js (transcript serve is st).2).2) := by
  induction is generalizing st with
  | nil => rfl
  | cons i rest ih =>
    rw [List.cons_append, transcript, ih]
    rfl

/-- An invariant that each of the requests keeps holds after the run. -/
theorem transcript_invariant {serve : ι → σ → ρ × σ} {I : σ → Prop} {is : List ι}
    (step : ∀ i ∈ is, ∀ st, I st → I (serve i st).2) {st : σ} (h : I st) : I (transcript serve is st).2 := by
  induction is generalizing st with
  | nil => exact h
  | cons i rest ih =>
    exact ih (fun j hj => step j (List.mem_cons_of_mem _ hj)) (step i List.mem_cons_self st h)

end CounterLedger
