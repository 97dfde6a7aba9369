import SmallScheme.Proofs.Evaluation.Simulation

/-!
# The limit of depth only cuts evaluation off

An evaluation looks at the limit of depth to stop, and for nothing else. So an evaluation that a
limit does not stop ends the same way under every higher limit, and an evaluation that starts
deeper, under a limit that is higher by as much, differs in no more than the limit that a fault
reports (`Evaluation.limit_only_cuts_off`).

The proof runs the evaluator under both limits side by side. For a higher limit the second run has
more levels left, and faults of the limit are lost; for a limit that is only shifted both runs have
the same levels left, and all faults are compared, up to the limits that they report.
-/

namespace SmallScheme

namespace Environment

/-- The environment under another limit of depth. -/
def withLimit (env : Environment) (limit : Nat) : Environment :=
  { env with maxDepth := limit }

theorem bind_withLimit (env : Environment) (limit : Nat) {bound bound' : Environment}
    {name : String} {v : Value}
    (h : env.bind name v = .ok bound) (h' : (env.withLimit limit).bind name v = .ok bound') :
    bound' = bound.withLimit limit := by
  rcases bind_both h h' with ⟨f, -, rfl, rfl⟩ | ⟨-, rfl, rfl⟩ <;> rfl

end Environment

namespace Fault

/-- A fault without the limit that it reports. -/
def forgetLimit : Fault → Fault
  | depthLimit _ => depthLimit 0
  | fault => fault

end Fault

namespace Comparison

/-- A run beside a run under another limit. -/
def underLimit (limit : Nat) (Similar : Fault → Fault → Prop) (Lost : Fault → Prop)
    (hrefl : ∀ fault, Similar fault fault)
    (hlimit : ∀ m, Lost (.depthLimit m) ∨ Similar (.depthLimit m) (.depthLimit limit)) :
    Comparison where
  Context := List String
  running := id
  Related _ _ s t := t = s.withLimit limit
  Similar := Similar
  Lost := Lost
  similar_refl fault _ := hrefl fault
  limit := by
    rintro _ _ s _ rfl
    exact hlimit s.maxDepth
  lookup := by
    rintro _ _ s _ name rfl _
    exact ⟨rfl, fun _ _ => trivial⟩
  resolve := by
    rintro _ _ s _ name rfl _
    exact ⟨rfl, fun _ _ => trivial⟩
  isDefined := by
    rintro _ _ s _ name rfl _
    rfl
  define := by
    rintro _ _ s _ name v bound bound' rfl _ _ _ _ _ hs ht
    exact Environment.bind_withLimit s limit hs ht
  assign := by
    rintro _ _ _ _ _ s _ name v bound bound' _ _ rfl _ _ _ _ hs ht
    exact Environment.bind_withLimit s limit hs ht
  apply hrel _ := hrel
  operand := by
    rintro _ _ s _ key f operands b rfl _ _ _
    rfl
  enter := by
    rintro running _ s _ key f operands bindings rfl _ _ _ _
    refine ⟨key :: running, rfl, rfl, ?_⟩
    rintro _ s' _ rfl
    rfl

/-- A run beside one under a higher limit, for as long as the lower limit does not stop it. -/
def underHigherLimit (limit : Nat) : Comparison :=
  underLimit limit Eq (fun fault => fault.kind? = some .depthLimitExceeded) (fun _ => rfl)
    fun _ => .inl rfl

/-- A run beside one that starts deeper under a limit that is higher by as much. -/
def underShiftedLimit (limit : Nat) : Comparison :=
  underLimit limit (fun f g => f.forgetLimit = g.forgetLimit) (fun _ => False) (fun _ => rfl)
    fun _ => .inr rfl

end Comparison

namespace Evaluation

variable {env after : Environment} {depth limit : Nat} {e : Value} {result : Except Fault Value}

/-- An evaluation that its limit does not stop ends the same way under every higher limit. -/
theorem outcome_of_limit_le {higher : Nat} (hle : limit ≤ higher)
    (hrun : (evaluateAt depth e).outcome (env.withLimit limit) = (result, after))
    (hfree : ∀ fault, result = .error fault → fault.kind? ≠ some .depthLimitExceeded) :
    (evaluateAt depth e).outcome (env.withLimit higher) = (result, after.withLimit higher) := by
  obtain ⟨extra, hextra⟩ := Nat.exists_eq_add_of_le (Nat.sub_le_sub_right hle depth)
  have hagree := Comparison.agree_evaluateAt_add (c := .underHigherLimit higher) (i := [])
    (s := env.withLimit limit) (t := env.withLimit higher) (e := e) rfl (.inr fun _ => rfl) rfl
    hextra trivial fun _ _ => trivial
  rw [hrun] at hagree
  generalize (evaluateAt depth e).outcome (env.withLimit higher) = raised at *
  cases hagree with
  | ok _ hrel => rw [hrel]
  | error hfault hrel => rw [hrel, hfault]
  | lost hlost => exact absurd hlost (hfree _ rfl)

/-- An evaluation that starts deeper under a limit that is higher by as much. -/
theorem outcome_of_limit_add (shift : Nat)
    (hrun : (evaluateAt depth e).outcome (env.withLimit limit) = (result, after)) :
    ∃ shifted, (evaluateAt (depth + shift) e).outcome (env.withLimit (limit + shift))
        = (shifted, after.withLimit (limit + shift)) ∧
      shifted.mapError Fault.forgetLimit = result.mapError Fault.forgetLimit := by
  have hagree := Comparison.agree_evaluateAt_add (c := .underShiftedLimit (limit + shift))
    (i := []) (s := env.withLimit limit) (t := env.withLimit (limit + shift)) (e := e) rfl
    (.inl rfl) rfl (Nat.add_sub_add_right limit shift depth) trivial fun _ _ => trivial
  rw [hrun] at hagree
  generalize (evaluateAt (depth + shift) e).outcome (env.withLimit (limit + shift)) = moved at *
  cases hagree with
  | ok _ hrel => exact ⟨_, congrArg (Prod.mk _) hrel, rfl⟩
  | error hfault hrel =>
    refine ⟨_, congrArg (Prod.mk _) hrel, ?_⟩
    exact congrArg Except.error hfault.symm
  | lost hlost => exact hlost.elim

/-- **The limit of depth only cuts evaluation off and never changes it.** An evaluation that its
limit does not stop has the same result, and leaves the same environment, under every higher limit.
And under a limit that is higher by as much as the evaluation starts deeper, the result is the same
up to the limit that a fault reports, and so is the environment. -/
theorem limit_only_cuts_off :
    (∀ (env : Environment) (depth limit higher : Nat) (e : Value), limit ≤ higher →
      let run := (evaluateAt depth e).outcome (env.withLimit limit)
      (∀ fault, run.1 = .error fault → fault.kind? ≠ some .depthLimitExceeded) →
        (evaluateAt depth e).outcome (env.withLimit higher) = (run.1, run.2.withLimit higher)) ∧
    ∀ (env : Environment) (depth limit shift : Nat) (e : Value),
      let run := (evaluateAt depth e).outcome (env.withLimit limit)
      let shifted := (evaluateAt (depth + shift) e).outcome (env.withLimit (limit + shift))
      shifted.1.mapError Fault.forgetLimit = run.1.mapError Fault.forgetLimit ∧
        shifted.2 = run.2.withLimit (limit + shift) := by
  refine ⟨?_, ?_⟩
  · intro env depth limit higher e hle run hfree
    exact outcome_of_limit_le hle rfl hfree
  · intro env depth limit shift e run shifted
    have hrun : (evaluateAt depth e).outcome (env.withLimit limit) = (run.1, run.2) := rfl
    obtain ⟨result, hshifted, hresult⟩ := outcome_of_limit_add shift hrun
    exact ⟨(congrArg _ (congrArg Prod.fst hshifted)).trans hresult, congrArg Prod.snd hshifted⟩

/-- Three levels are enough for a function to be defined, and five change nothing. -/
theorem limit_only_cuts_off_definition :
    let e : Value := .list [.symbol "define", .symbol "f",
      .lambdaForm (.list [.symbol "x"]) (.list [.symbol "not", .symbol "x"])]
    let env := Environment.fresh {}
    let run := (evaluateAt 0 e).outcome (env.withLimit 3)
    (∀ fault, run.1 = .error fault → fault.kind? ≠ some .depthLimitExceeded) ∧
      (evaluateAt 0 e).outcome (env.withLimit 5) = (run.1, run.2.withLimit 5) := by
  intro e env run
  have hrun : ∀ fault, run.1 = .error fault → fault.kind? ≠ some .depthLimitExceeded := by
    have hok : run.1.isOk = true := by decide
    intro fault hfault
    rw [hfault] at hok
    cases hok
  exact ⟨hrun, limit_only_cuts_off.1 env 0 3 5 e (by decide) hrun⟩

end Evaluation

end SmallScheme
