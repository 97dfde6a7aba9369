import SmallScheme.Proofs.Environment.Invariant
import SmallScheme.Proofs.Evaluation.Checks
import SmallScheme.Proofs.Evaluation.Limit

/-!
# Enough levels

An evaluation has enough levels left if it does not end with the fault of the limit of depth
(`Eval.WithinLimit`). Then it would do the same with more levels (`Evaluation.cutFrom_evaluate`).

What is put together from evaluations, here with fewer levels and there with more, is the same on
both sides as long as the one with fewer levels has enough of them. This is a relation between
evaluations, `Eval.CutFrom`, which goes through their parts one by one. So does `Eval.Unstopped`,
which says of an evaluation that it has enough levels in every environment.
-/

namespace SmallScheme

namespace Eval

open Fault (Ordinary Harmless harmless_ok harmless_error)

variable {α β : Type} {x y : Eval α} {f g : α → Eval β} {env : Environment}

/-! ## Outcomes within the limit -/

/-- The evaluation did not end because no levels were left. -/
def WithinLimit (run : Except Fault α × Environment) : Prop :=
  Harmless run.1

@[simp] theorem withinLimit_ok (a : α) (after : Environment) : WithinLimit (.ok a, after) :=
  harmless_ok a

@[simp] theorem withinLimit_error (fault : Fault) (after : Environment) :
    WithinLimit ((.error fault, after) : Except Fault α × Environment) ↔ fault.Ordinary :=
  harmless_error

/-- An evaluation stays within the limit if each of its parts does. -/
theorem withinLimit_bind : WithinLimit ((x >>= f).outcome env) ↔
    WithinLimit (x.outcome env) ∧
      ∀ a after, x.outcome env = (.ok a, after) → WithinLimit ((f a).outcome after) := by
  rw [outcome_bind]
  rcases x.outcome env with ⟨fault | a, after⟩
  · simp
  · simp

/-! ## Evaluations that are cut off -/

/-- One evaluation is the other one, unless the limit of depth stops it. -/
def CutFrom (x y : Eval α) : Prop :=
  ∀ env, WithinLimit (x.outcome env) → x.outcome env = y.outcome env

theorem CutFrom.refl (x : Eval α) : x.CutFrom x :=
  fun _ _ => rfl

theorem CutFrom.bind (hx : x.CutFrom y) (hf : ∀ a, (f a).CutFrom (g a)) :
    (x >>= f).CutFrom (y >>= g) := by
  intro env hwithin
  obtain ⟨hfirst, hrest⟩ := withinLimit_bind.mp hwithin
  rw [outcome_bind, outcome_bind, ← hx env hfirst]
  rcases hrun : x.outcome env with ⟨fault | a, after⟩
  · rfl
  · exact hf a after (hrest a after hrun)

/-- What follows an evaluation stays as it is. -/
theorem CutFrom.bind_left (hx : x.CutFrom y) (f : α → Eval β) : (x >>= f).CutFrom (y >>= f) :=
  hx.bind fun a => .refl (f a)

/-! ## Evaluations that the limit never stops -/

/-- The evaluation stays within the limit in every environment. -/
def Unstopped (x : Eval α) : Prop :=
  ∀ env, WithinLimit (x.outcome env)

theorem Unstopped.pure (a : α) : (pure a : Eval α).Unstopped :=
  fun env => withinLimit_ok a env

theorem Unstopped.throw {fault : Fault} (h : fault.Ordinary) :
    (throw fault : Eval α).Unstopped :=
  fun env => (withinLimit_error fault env).mpr h

theorem Unstopped.ofExcept {r : Except Fault α} (h : Harmless r) : (ofExcept r).Unstopped :=
  fun _ => h

theorem Unstopped.bind (hx : x.Unstopped) (hf : ∀ a, (f a).Unstopped) : (x >>= f).Unstopped :=
  fun env => withinLimit_bind.mpr ⟨hx env, fun a after _ => hf a after⟩

/-- What follows a look at the environment may depend on it. -/
theorem Unstopped.get {f : Environment → Eval β} (hf : ∀ env, (f env).Unstopped) :
    (get >>= f).Unstopped :=
  fun env => hf env env

theorem Unstopped.mapM {h : α → Eval β} {as : List α} (hh : ∀ a ∈ as, (h a).Unstopped) :
    (as.mapM h).Unstopped := by
  induction as with
  | nil => exact .pure []
  | cons a as ih =>
    rw [List.mapM_cons]
    refine (hh a List.mem_cons_self).bind fun b => ?_
    exact (ih fun a' ha' => hh a' (List.mem_cons_of_mem a ha')).bind fun bs => .pure (b :: bs)

end Eval

/-! ## More levels -/

namespace Evaluation

open Eval

theorem not_withinLimit_evaluate_zero (e : Value) (env : Environment) :
    ¬WithinLimit ((evaluate 0 e).outcome env) :=
  fun h => h (.depthLimit env.maxDepth) rfl rfl

/-- The limit itself does not matter to an evaluation that succeeds with so many levels left. -/
theorem outcome_evaluate_withLimit {room : Nat} {e v : Value} {env after : Environment}
    (hrun : (evaluate room e).outcome env = (.ok v, after)) (limit : Nat) :
    (evaluate room e).outcome (env.withLimit limit) = (.ok v, after.withLimit limit) := by
  have hsimulates : (Comparison.underShiftedLimit limit).Simulates [] (trace room [] e) (fun _ => True)
      (evaluate room e) (evaluate room e) := Comparison.simulates_evaluate (.inl rfl) room trivial
  have hagree := hsimulates [] env (env.withLimit limit) rfl fun _ _ => trivial
  rw [hrun] at hagree
  generalize (evaluate room e).outcome (env.withLimit limit) = moved at *
  cases hagree with
  | ok _ hrel => exact congrArg (Prod.mk (Except.ok v)) hrel

/-- With more levels an evaluation does the same, unless it had too few. -/
theorem cutFrom_evaluate {room more : Nat} (hle : room ≤ more) (e : Value) :
    (evaluate room e).CutFrom (evaluate more e) := by
  intro env hwithin
  obtain ⟨extra, rfl⟩ := Nat.exists_eq_add_of_le hle
  have hsimulates : (Comparison.underHigherLimit env.maxDepth).Simulates [] (trace room [] e)
      (fun _ => True) (evaluate room e) (evaluate (room + extra) e) :=
    Comparison.simulates_evaluate (.inr fun _ => rfl) room trivial
  have hagree := hsimulates [] env env rfl fun _ _ => trivial
  have hconfig := obeys_evaluate Environment.law_config room e env
  generalize (evaluate room e).outcome env = left at *
  generalize (evaluate (room + extra) e).outcome env = right at *
  -- The second run is compared under a limit that happens to be the same.
  have hlimit : left.2.withLimit env.maxDepth = left.2 := by
    rw [← show left.2.maxDepth = env.maxDepth from congrArg Environment.Config.maxDepth hconfig]
    rfl
  cases hagree with
  | ok _ hrel => rw [hrel, hlimit]
  | error hfault hrel => rw [hrel, hlimit, hfault]
  | lost hlost => exact absurd hlost (hwithin _ rfl)

end Evaluation

end SmallScheme
