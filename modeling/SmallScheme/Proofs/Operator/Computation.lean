import SmallScheme.Operator.Primitive
import SmallScheme.Proofs.Fault

/-!
# The computations of primitives

A sum is computed number by number, from zero on, and a product from one on. So what a primitive
answers numbers with is the last of a few computations (`Primitive.Performs`). The operands of these
are numbers that the primitive is applied to, results of earlier ones, zero, and one. What holds of
these numbers, and of the result of each of the computations if it holds of its operands, holds of
all operands (`Primitive.operands_of_performs`) and of the answer (`Primitive.of_performs`).

A primitive that fails on numbers has got too few of them or too many, or one of its computations
fails (`Primitive.performs_of_error`).
-/

namespace SmallScheme.Primitive

open Number (Computation)
open Fault (bind_eq_ok bind_eq_error)

/-! ## One number after the other -/

section

variable {make : Number → Number → Computation} {start n : Number}

theorem accumulate_nil : accumulate make start [] = .ok start := rfl

theorem accumulate_cons {rest : List Number} :
    accumulate make start (n :: rest) =
      (make start n).run >>= fun total => accumulate make total rest := by
  rw [accumulate, List.foldlM_cons]
  rfl

theorem accumulate_append {front rest : List Number} :
    accumulate make start (front ++ rest) =
      accumulate make start front >>= fun total => accumulate make total rest :=
  List.foldlM_append

end

/-- The computations that a primitive performs on numbers. -/
inductive Performs : Primitive → List Number → Computation → Prop
  | add {front : List Number} {total : Number} (h : sum front = .ok total) (n : Number)
      (rest : List Number) : Performs .add (front ++ n :: rest) (.add total n)
  | multiply {front : List Number} {total : Number} (h : product front = .ok total) (n : Number)
      (rest : List Number) : Performs .multiply (front ++ n :: rest) (.multiply total n)
  | negate (a : Number) : Performs .subtract [a] (.negate a)
  | subtract (a b : Number) : Performs .subtract [a, b] (.subtract a b)
  | reciprocal (a : Number) : Performs .divide [a] (.divide (.integer 1) a)
  | divide (a b : Number) : Performs .divide [a, b] (.divide a b)

/-- What a primitive answers numbers with: a number or a fault. -/
inductive Answers : Primitive → List Number → Except Fault Number → Prop
  | sum {ns r} (h : sum ns = r) : Answers .add ns r
  | product {ns r} (h : product ns = r) : Answers .multiply ns r
  | difference {ns r} (h : difference ns = r) : Answers .subtract ns r
  | ratio {ns r} (h : ratio ns = r) : Answers .divide ns r

variable {p : Primitive} {ns : List Number}

/-! ## Numbers that are answered -/

section

variable {good : Number → Prop} (hns : ∀ n ∈ ns, good n)
variable (hresult : ∀ {c n}, p.Performs ns c → (∀ a ∈ c.operands, good a) → c.result? = some n →
  good n)
include hns hresult

/-- What passes on from operands to results holds of everything that is accumulated on the way. -/
theorem of_accumulate {make : Number → Number → Computation} {start : Number}
    (hmake : ∀ a b, (make a b).operands = [a, b]) (hstart : good start)
    (hperforms : ∀ {front n rest total}, accumulate make start front = .ok total →
      ns = front ++ n :: rest → p.Performs ns (make total n)) :
    ∀ {front rest total}, ns = front ++ rest → accumulate make start front = .ok total →
      good total := by
  suffices h : ∀ {front rest done reached total}, accumulate make start done = .ok reached →
      good reached → ns = done ++ (front ++ rest) → accumulate make reached front = .ok total →
      good total from fun {_ _ _} => h accumulate_nil hstart
  intro front
  induction front with
  | nil =>
    intro rest done reached total _ hreached _ htotal
    cases htotal
    exact hreached
  | cons n front ih =>
    intro rest done reached total hdone hreached hsplit htotal
    rw [accumulate_cons] at htotal
    obtain ⟨next, hnext, htotal⟩ := bind_eq_ok.mp htotal
    have hn : good n := hns n (by simp [hsplit])
    have hgood : good next := by
      refine hresult (hperforms hdone hsplit) ?_ (Computation.run_eq_ok_iff.mp hnext).2
      rw [hmake]
      exact List.forall_mem_cons.mpr ⟨hreached, List.forall_mem_singleton.mpr hn⟩
    have hfurther : accumulate make start (done ++ [n]) = .ok next := by
      rw [accumulate_append, hdone]
      exact accumulate_cons.trans (congrArg (· >>= _) hnext)
    exact ih hfurther hgood (by simpa using hsplit) htotal

variable (hzero : good (.integer 0)) (hone : good (.integer 1))
include hzero hone

theorem operands_of_performs {c : Computation} (h : p.Performs ns c) :
    ∀ a ∈ c.operands, good a := by
  cases h with
  | add h n rest =>
    have hsum := of_accumulate hns hresult (fun _ _ => rfl) hzero
      (fun hdone hsplit => hsplit ▸ .add hdone _ _) rfl h
    have hn : good n := hns n (by simp)
    exact List.forall_mem_cons.mpr ⟨hsum, List.forall_mem_singleton.mpr hn⟩
  | multiply h n rest =>
    have hproduct := of_accumulate hns hresult (fun _ _ => rfl) hone
      (fun hdone hsplit => hsplit ▸ .multiply hdone _ _) rfl h
    have hn : good n := hns n (by simp)
    exact List.forall_mem_cons.mpr ⟨hproduct, List.forall_mem_singleton.mpr hn⟩
  | negate a | subtract a b | divide a b => exact hns
  | reciprocal a => exact List.forall_mem_cons.mpr ⟨hone, hns⟩

theorem of_performs {n : Number} (h : p.Answers ns (.ok n)) : good n := by
  have hperformed : ∀ {c}, p.Performs ns c → c.run = .ok n → good n := fun hperforms hrun =>
    hresult hperforms (operands_of_performs hns hresult hzero hone hperforms)
      (Computation.run_eq_ok_iff.mp hrun).2
  have hsplit : ns = ns ++ [] := (List.append_nil ns).symm
  cases h with
  | sum h =>
    exact of_accumulate hns hresult (fun _ _ => rfl) hzero
      (fun hdone hsplit => hsplit ▸ .add hdone _ _) hsplit h
  | product h =>
    exact of_accumulate hns hresult (fun _ _ => rfl) hone
      (fun hdone hsplit => hsplit ▸ .multiply hdone _ _) hsplit h
  | difference h =>
    unfold difference at h
    split at h
    · exact hperformed (.negate _) h
    · exact hperformed (.subtract _ _) h
    · cases h
  | ratio h =>
    unfold ratio at h
    split at h
    · exact hperformed (.reciprocal _) h
    · exact hperformed (.divide _ _) h
    · cases h

end

/-! ## Faults -/

/-- What is accumulated fails at the first of its computations that fails. -/
theorem fails_of_accumulate {make : Number → Number → Computation} {start : Number} {fault : Fault}
    (h : accumulate make start ns = .error fault) :
    ∃ front n rest total, ns = front ++ n :: rest ∧ accumulate make start front = .ok total ∧
      (make total n).run = .error fault := by
  induction ns generalizing start with
  | nil => cases h
  | cons n rest ih =>
    rw [accumulate_cons] at h
    rcases bind_eq_error.mp h with hfirst | ⟨next, hnext, hrest⟩
    · exact ⟨[], n, rest, start, rfl, rfl, hfirst⟩
    · obtain ⟨front, m, behind, total, rfl, hfront, hfault⟩ := ih hrest
      refine ⟨n :: front, m, behind, total, rfl, ?_, hfault⟩
      rw [accumulate_cons, hnext]
      exact hfront

theorem performs_of_error {fault : Fault} (h : p.Answers ns (.error fault)) :
    fault = .operandCount ∨ ∃ c, p.Performs ns c ∧ c.run = .error fault := by
  cases h with
  | sum h =>
    obtain ⟨front, n, rest, total, rfl, htotal, hfault⟩ := fails_of_accumulate h
    exact .inr ⟨_, .add htotal n rest, hfault⟩
  | product h =>
    obtain ⟨front, n, rest, total, rfl, htotal, hfault⟩ := fails_of_accumulate h
    exact .inr ⟨_, .multiply htotal n rest, hfault⟩
  | difference h =>
    unfold difference at h
    split at h
    · exact .inr ⟨_, .negate _, h⟩
    · exact .inr ⟨_, .subtract _ _, h⟩
    · cases h
      exact .inl rfl
  | ratio h =>
    unfold ratio at h
    split at h
    · exact .inr ⟨_, .reciprocal _, h⟩
    · exact .inr ⟨_, .divide _ _, h⟩
    · cases h
      exact .inl rfl

/-- Primitives on integers stay among the integers, where everything fits. -/
theorem exists_decimal_of_performs {c : Computation} (h : p.Performs ns c) (hfits : ¬c.Fits) :
    ∃ d, .decimal d ∈ ns := by
  have hnotall : ¬∀ n ∈ ns, n.isInteger = true := by
    intro hall
    have hoperands : ∀ a ∈ c.operands, a.isInteger = true :=
      operands_of_performs hall (fun _ hoperands hresult =>
        (Computation.isInteger_of_result? hresult).mpr hoperands) rfl rfl h
    exact hfits (Computation.fits_of_isInteger hoperands)
  obtain ⟨n, hnot⟩ := Classical.not_forall.mp hnotall
  obtain ⟨hn, hkind⟩ := Classical.not_imp.mp hnot
  cases n with
  | integer m => exact absurd rfl hkind
  | decimal d => exact ⟨d, hn⟩

end SmallScheme.Primitive
