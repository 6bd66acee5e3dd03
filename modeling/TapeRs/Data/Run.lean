import Mathlib.Logic.Relation

namespace TapeRs.Run

variable {σ ι : Type} {step : σ → ι → σ} {allowed : σ → ι → Prop} {first last : σ}

def Step (step : σ → ι → σ) (allowed : σ → ι → Prop) (before after : σ) : Prop :=
  ∃ call, allowed before call ∧ step before call = after

abbrev Reaches (step : σ → ι → σ) (allowed : σ → ι → Prop) : σ → σ → Prop :=
  Relation.ReflTransGen (Step step allowed)

theorem Reaches.invariant {P : σ → Prop} (run : Reaches step allowed first last)
    (keeps : ∀ state call, P state → allowed state call → P (step state call)) (start : P first) : P last := by
  induction run with
  | refl => exact start
  | tail _ taken ih =>
    obtain ⟨call, permitted, rfl⟩ := taken
    exact keeps _ call ih permitted

theorem Reaches.related {P : σ → Prop} {R : σ → σ → Prop} (run : Reaches step allowed first last)
    (keeps : ∀ state call, P state → allowed state call → P (step state call))
    (follows : ∀ state call, P state → allowed state call → R state (step state call)) (refl : ∀ state, R state state)
    (trans : ∀ a b c, R a b → R b c → R a c) (start : P first) : R first last := by
  have both : P last ∧ R first last := by
    refine run.invariant (P := fun state => P state ∧ R first state) ?_ ⟨start, refl first⟩
    rintro state call ⟨holds, related⟩ permitted
    exact ⟨keeps state call holds permitted, trans _ _ _ related (follows state call holds permitted)⟩
  exact both.2

theorem Reaches.weaken {loose : σ → ι → Prop} (run : Reaches step allowed first last)
    (implies : ∀ state call, allowed state call → loose state call) : Reaches step loose first last := by
  refine Relation.ReflTransGen.mono ?_ _ _ run
  rintro before after ⟨call, permitted, same⟩
  exact ⟨call, implies before call permitted, same⟩

def Follows (step : σ → ι → σ) (allowed : σ → ι → Prop) : σ → List ι → Prop
  | _, [] => True
  | state, call :: rest => allowed state call ∧ Follows step allowed (step state call) rest

instance decidableFollows [∀ state call, Decidable (allowed state call)] (state : σ) (calls : List ι) :
    Decidable (Follows step allowed state calls) :=
  match calls with
  | [] => .isTrue trivial
  | call :: rest =>
    have : Decidable (Follows step allowed (step state call) rest) := decidableFollows (step state call) rest
    inferInstanceAs (Decidable (_ ∧ _))

theorem follows_append {state : σ} {first second : List ι} :
    Follows step allowed state (first ++ second) ↔
      Follows step allowed state first ∧ Follows step allowed (first.foldl step state) second := by
  induction first generalizing state with
  | nil => exact (and_iff_right trivial).symm
  | cons call rest ih => exact (and_congr_right fun _ => ih).trans and_assoc.symm

theorem Follows.reaches {state : σ} {calls : List ι} (follows : Follows step allowed state calls) :
    Reaches step allowed state (calls.foldl step state) := by
  induction calls generalizing state with
  | nil => exact .refl
  | cons call rest ih => exact .head ⟨call, follows.1, rfl⟩ (ih follows.2)

end TapeRs.Run
