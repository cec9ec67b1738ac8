import FcTpms.Program.Returns

/-!
# Starts that make no difference

Two start states agree for a program if it returns the same value and stops in the same state from
both, whatever it observes on the way. What agrees for the first part of a program agrees for the
whole.
-/

namespace FcTpms.Program.Prog

variable {σ ε α β : Type}

/-- What a run from one start returns, a run from the other returns in the same state. -/
def Follows (program : Prog σ ε α) (start other : σ) : Prop :=
  ∀ value stop trace, program.Evaluates start value stop trace →
    ∃ trace', program.Evaluates other value stop trace'

/-- Both starts lead to the same. -/
structure Agree (program : Prog σ ε α) (start other : σ) : Prop where
  forth : program.Follows start other
  back : program.Follows other start

theorem Agree.symm {program : Prog σ ε α} {start other : σ} (agree : program.Agree start other) :
    program.Agree other start := ⟨agree.back, agree.forth⟩

theorem Agree.refl (program : Prog σ ε α) (start : σ) : program.Agree start start :=
  ⟨fun _ _ trace evaluates => ⟨trace, evaluates⟩, fun _ _ trace evaluates => ⟨trace, evaluates⟩⟩

/-- Both runs return the same. -/
theorem Agree.of_attains {program : Prog σ ε α} {start other : σ} {value : α} {stop : σ}
    (here : program.Attains start fun value' stop' _ => value' = value ∧ stop' = stop)
    (there : program.Attains other fun value' stop' _ => value' = value ∧ stop' = stop) :
    program.Agree start other := by
  rcases here with ⟨_, _, trace, evaluates, rfl, rfl⟩
  rcases there with ⟨_, _, trace', evaluates', rfl, rfl⟩
  constructor
  · intro value stop late again
    rcases evaluates.unique again with ⟨rfl, rfl, rfl⟩
    exact ⟨trace', evaluates'⟩
  · intro value stop late again
    rcases evaluates'.unique again with ⟨rfl, rfl, rfl⟩
    exact ⟨trace, evaluates⟩

theorem Follows.bind {first : Prog σ ε α} {second : α → Prog σ ε β} {start other : σ}
    (follows : first.Follows start other) : (first >>= second).Follows start other := by
  intro result stop trace whole
  rcases whole.of_bind with ⟨value, middle, early, late, former, latter, rfl⟩
  rcases follows value middle early former with ⟨trace', former'⟩
  exact ⟨trace' ++ late, former'.bind latter⟩

theorem Agree.bind {first : Prog σ ε α} {second : α → Prog σ ε β} {start other : σ}
    (agree : first.Agree start other) : (first >>= second).Agree start other :=
  ⟨agree.forth.bind, agree.back.bind⟩

/-- Where both runs of the first part return the same value, the rest may agree as well. -/
theorem Agree.after {first : Prog σ ε α} {second : α → Prog σ ε β} {start other middle middle' : σ}
    {value : α} (here : first.Attains start fun value' stop _ => value' = value ∧ stop = middle)
    (there : first.Attains other fun value' stop _ => value' = value ∧ stop = middle')
    (rest : (second value).Agree middle middle') : (first >>= second).Agree start other := by
  have follows {start other middle middle' : σ}
      (here : first.Attains start fun value' stop _ => value' = value ∧ stop = middle)
      (there : first.Attains other fun value' stop _ => value' = value ∧ stop = middle')
      (rest : (second value).Follows middle middle') : (first >>= second).Follows start other := by
    intro result stop trace whole
    rcases whole.of_bind with ⟨_, _, early, late, former, latter, rfl⟩
    rcases here with ⟨_, _, _, evaluates, rfl, rfl⟩
    rcases former.unique evaluates with ⟨rfl, rfl, rfl⟩
    rcases there with ⟨_, _, early', evaluates', rfl, rfl⟩
    rcases rest result stop late latter with ⟨late', latter'⟩
    exact ⟨early' ++ late', evaluates'.bind latter'⟩
  exact ⟨follows here there rest.forth, follows there here rest.back⟩

/-- The first round of a loop, and the rest of it. -/
theorem Evaluates.of_loop {body : β → Prog σ ε (β ⊕ α)} {counter : β} {start stop : σ} {result : α}
    {trace : List ε} (evaluates : (loop body counter).Evaluates start result stop trace) :
    ∃ answer middle early, (body counter).Evaluates start answer middle early ∧
      match answer with
      | .inl next => ∃ late, (Prog.loop body next).Evaluates middle result stop late
      | .inr value => value = result ∧ middle = stop := by
  refine Evaluates.loop_induct (motive := fun counter start result stop _ =>
    ∃ answer middle early, (body counter).Evaluates start answer middle early ∧
      match answer with
      | .inl next => ∃ late, (Prog.loop body next).Evaluates middle result stop late
      | .inr value => value = result ∧ middle = stop) ?_ ?_ evaluates
  · intro counter start result stop trace last
    exact ⟨_, _, _, last, rfl, rfl⟩
  · intro counter next start middle result stop early late round rest _
    exact ⟨_, _, _, round, late, rest⟩

theorem Follows.loop {body : β → Prog σ ε (β ⊕ α)} {counter : β} {start other : σ}
    (follows : (body counter).Follows start other) :
    (loop body counter).Follows start other := by
  intro result stop trace evaluates
  rcases evaluates.of_loop with ⟨answer, middle, early, round, holds⟩
  rcases follows answer middle early round with ⟨early', round'⟩
  cases answer with
  | inl next =>
    rcases holds with ⟨late, rest⟩
    exact ⟨_, Evaluates.loop_next round' rest⟩
  | inr value =>
    rcases holds with ⟨rfl, rfl⟩
    exact ⟨_, Evaluates.loop_done round'⟩

theorem Agree.loop {body : β → Prog σ ε (β ⊕ α)} {counter : β} {start other : σ}
    (agree : (body counter).Agree start other) : (loop body counter).Agree start other :=
  ⟨agree.forth.loop, agree.back.loop⟩

/-- Starts that agree attain the same, apart from observations. -/
theorem Agree.attains {program : Prog σ ε α} {start other : σ} (agree : program.Agree start other)
    {goal : α → σ → Prop} (attains : program.Attains start fun value stop _ => goal value stop) :
    program.Attains other fun value stop _ => goal value stop := by
  rcases attains with ⟨value, stop, trace, evaluates, holds⟩
  rcases agree.forth value stop trace evaluates with ⟨trace', evaluates'⟩
  exact ⟨value, stop, trace', evaluates', holds⟩

end FcTpms.Program.Prog
