import Mathlib.Algebra.BigOperators.Group.List.Basic
import SmallScheme.Proofs.Number.Computation
import SmallScheme.Proofs.Operator.Primitive

/-!
# Sums and products of many numbers

A sum begins with the integer zero and takes in one number after the other. It leaves the integers
at the first decimal that it meets, and is brought into normal form again at every step behind it.
So where this happens depends on the order of the numbers, and on how they are grouped. The result
does not: it denotes the sum of what the numbers denote, it is an integer exactly if all of them
are, and it is in normal form (`Primitive.Totals`), and these settle a number
(`Number.eq_iff_value_eq`). The same holds of products.

What does depend on the order is whether there is a result. A sum or product stops where a scale
cannot be stored, and there may be another way to the same number that does not come across this
scale. So two ways have the same outcome unless just one of them stops, and none stops if the digits
of what they start with are near enough to the point (`Primitive.sums_and_products_rearrange`). But
one may lead to it where the other stops (`Primitive.distribution_overflows`).
-/

namespace SmallScheme.Primitive

open Number (Computation)
open Fault (bind_eq_ok bind_eq_error)

/-! ## One number after the other -/

/-- Computations on two numbers that have a result and are exact. -/
structure Exact (make : Number → Number → Computation) (exact : ℚ → ℚ → ℚ) : Prop where
  operands : ∀ a b, (make a b).operands = [a, b]
  result : ∀ a b, ∃ n, (make a b).result? = some n ∧ n.value = exact a.value b.value

theorem exact_add : Exact .add (· + ·) where
  operands _ _ := rfl
  result a b := ⟨_, rfl, (Number.computes_add a b).value⟩

theorem exact_multiply : Exact .multiply (· * ·) where
  operands _ _ := rfl
  result a b := ⟨_, rfl, (Number.computes_multiply a b).value⟩

section

variable {make : Number → Number → Computation} {exact : ℚ → ℚ → ℚ} {start n : Number}
variable {ns : List Number} (h : Exact make exact)
include h

theorem Exact.value_of_run {a b : Number} (hrun : (make a b).run = .ok n) :
    n.value = exact a.value b.value := by
  obtain ⟨m, hm, hvalue⟩ := h.result a b
  obtain rfl : n = m := Option.some.inj ((Computation.run_eq_ok_iff.mp hrun).2.symm.trans hm)
  exact hvalue

theorem Exact.isInteger_of_run {a b : Number} (hrun : (make a b).run = .ok n) :
    n.isInteger = true ↔ a.isInteger = true ∧ b.isInteger = true := by
  rw [Computation.isInteger_of_result? (Computation.run_eq_ok_iff.mp hrun).2, h.operands,
    List.forall_mem_cons, List.forall_mem_singleton]

theorem value_accumulate (hrun : accumulate make start ns = .ok n) :
    n.value = (ns.map Number.value).foldl exact start.value := by
  induction ns generalizing start with
  | nil =>
    cases hrun
    rfl
  | cons m rest ih =>
    rw [accumulate_cons] at hrun
    obtain ⟨total, htotal, hrest⟩ := bind_eq_ok.mp hrun
    rw [ih hrest, h.value_of_run htotal, List.map_cons, List.foldl_cons]

theorem isInteger_accumulate (hrun : accumulate make start ns = .ok n) :
    n.isInteger = true ↔ start.isInteger = true ∧ ∀ m ∈ ns, m.isInteger = true := by
  induction ns generalizing start with
  | nil =>
    cases hrun
    simp
  | cons m rest ih =>
    rw [accumulate_cons] at hrun
    obtain ⟨total, htotal, hrest⟩ := bind_eq_ok.mp hrun
    rw [ih hrest, h.isInteger_of_run htotal, List.forall_mem_cons, and_assoc]

/-- Every number takes up its places and a hundred more. -/
theorem within_accumulate {j k : ℕ} (hstart : start.Within j) (hns : ∀ m ∈ ns, m.Within k)
    (hroom : j + ns.length * (k + 100) < 2 ^ 63) :
    ∃ n, accumulate make start ns = .ok n ∧ n.Within (j + ns.length * (k + 100)) := by
  induction ns generalizing start j with
  | nil => exact ⟨start, rfl, by simpa using hstart⟩
  | cons m rest ih =>
    obtain ⟨hm, hrest⟩ := List.forall_mem_cons.mp hns
    have hlength : j + (m :: rest).length * (k + 100)
        = j + k + 100 + rest.length * (k + 100) := by
      rw [List.length_cons, Nat.succ_mul]
      omega
    rw [hlength] at hroom ⊢
    obtain ⟨total, htotal, -⟩ := h.result start m
    have hfits : (make start m).Fits :=
      Computation.fits_of_operands (h.operands start m) hstart hm (by omega)
    have hwithin : total.Within (j + k + 100) :=
      Computation.within_of_operands (h.operands start m) hstart hm htotal
    rw [accumulate_cons, Computation.run_eq_ok_iff.mpr ⟨hfits, htotal⟩]
    exact ih hwithin hrest hroom

omit h in
theorem isNormal_accumulate (hstart : start.IsNormal) (hrun : accumulate make start ns = .ok n) :
    n.IsNormal := by
  induction ns generalizing start with
  | nil =>
    cases hrun
    exact hstart
  | cons m rest ih =>
    rw [accumulate_cons] at hrun
    obtain ⟨total, htotal, hrest⟩ := bind_eq_ok.mp hrun
    exact ih (Computation.isNormal_of_result? (Computation.run_eq_ok_iff.mp htotal).2) hrest

end

/-! ## Totals -/

/-- The numbers that a primitive makes of many. Each denotes what is made of the rationals that
these denote. It is an integer if all of them are, and in normal form. There is none if and only if
a scale that is needed cannot be stored, and there is one if the places of all numbers, and a
hundred more for each, can be counted. -/
structure Totals (p : Primitive) (total : List Number → Except Fault Number) (exact : List ℚ → ℚ) :
    Prop where
  apply : ∀ ns, p.apply (ns.map .number) = (total ns).map .number
  value : ∀ {ns n}, total ns = .ok n → n.value = exact (ns.map Number.value)
  isInteger : ∀ {ns n}, total ns = .ok n →
    (n.isInteger = true ↔ ∀ m ∈ ns, m.isInteger = true)
  isNormal : ∀ {ns n}, total ns = .ok n → n.IsNormal
  fault : ∀ {ns fault}, total ns = .error fault ↔
    fault = .scaleOverflow ∧ ∃ c, p.Performs ns c ∧ ¬c.Fits
  within : ∀ {ns k}, (∀ n ∈ ns, n.Within k) → 1 + ns.length * (k + 100) < 2 ^ 63 →
    ∃ n, total ns = .ok n ∧ n.Within (1 + ns.length * (k + 100))

section

variable {p : Primitive} {make : Number → Number → Computation} {exact : ℚ → ℚ → ℚ}
variable {start : Number} {total : List ℚ → ℚ}

/-- A primitive that takes in one number after the other, from a start on that denotes nothing. -/
theorem totals_of_exact (h : Exact make exact) (hnormal : start.IsNormal)
    (hinteger : start.isInteger = true) (hplaces : start.Within 1)
    (htotal : ∀ qs : List ℚ, qs.foldl exact start.value = total qs)
    (happly : ∀ ns, p.apply (ns.map .number) = (accumulate make start ns).map .number)
    (hperforms : ∀ ns c, p.Performs ns c ↔ ∃ front n rest reached, ns = front ++ n :: rest ∧
      accumulate make start front = .ok reached ∧ c = make reached n) :
    Totals p (accumulate make start) total where
  apply := happly
  value hrun := (value_accumulate h hrun).trans (htotal _)
  isInteger hrun := by
    rw [isInteger_accumulate h hrun]
    exact and_iff_right hinteger
  isNormal hrun := isNormal_accumulate hnormal hrun
  fault {ns fault} := by
    constructor
    · intro hfault
      obtain ⟨front, n, rest, reached, hns, hreached, hrun⟩ := fails_of_accumulate hfault
      rcases Computation.run_eq_error_iff.mp hrun with ⟨hfits, rfl⟩ | ⟨hnone, -⟩
      · exact ⟨rfl, _, (hperforms ns _).mpr ⟨front, n, rest, reached, hns, hreached, rfl⟩, hfits⟩
      · obtain ⟨m, hm, -⟩ := h.result reached n
        rw [hm] at hnone
        cases hnone
    · rintro ⟨rfl, c, hc, hfits⟩
      obtain ⟨front, n, rest, reached, rfl, hreached, rfl⟩ := (hperforms ns c).mp hc
      have hrun : (make reached n).run = .error .scaleOverflow :=
        Computation.run_eq_error_iff.mpr (.inl ⟨hfits, rfl⟩)
      rw [accumulate_append, hreached]
      exact accumulate_cons.trans (congrArg (· >>= _) hrun)
  within hns hroom := within_accumulate h hplaces hns hroom

end

theorem answer_eq_map (f : List Number → Except Fault Number) (ns : List Number) :
    (do return Value.number (← f (← numbers (ns.map .number)))) = (f ns).map .number := by
  rw [numbers_map]
  change (f ns >>= fun n => pure (Value.number n)) = _
  cases f ns <;> rfl

theorem performs_add_iff (ns : List Number) (c : Computation) :
    add.Performs ns c ↔ ∃ front n rest total, ns = front ++ n :: rest ∧ sum front = .ok total ∧
      c = .add total n := by
  constructor
  · intro h
    cases h with
    | add htotal n rest => exact ⟨_, n, rest, _, rfl, htotal, rfl⟩
  · rintro ⟨front, n, rest, total, rfl, htotal, rfl⟩
    exact .add htotal n rest

theorem performs_multiply_iff (ns : List Number) (c : Computation) :
    multiply.Performs ns c ↔ ∃ front n rest total, ns = front ++ n :: rest ∧
      product front = .ok total ∧ c = .multiply total n := by
  constructor
  · intro h
    cases h with
    | multiply htotal n rest => exact ⟨_, n, rest, _, rfl, htotal, rfl⟩
  · rintro ⟨front, n, rest, total, rfl, htotal, rfl⟩
    exact .multiply htotal n rest

theorem totals_sum : Totals add sum List.sum := by
  refine totals_of_exact exact_add trivial rfl (Number.within_integer (by norm_num)) (fun qs => ?_)
    (answer_eq_map sum) performs_add_iff
  rw [List.sum_eq_foldl, Number.value_integer, Int.cast_zero]

theorem totals_product : Totals multiply product List.prod := by
  refine totals_of_exact exact_multiply trivial rfl (Number.within_integer (by norm_num))
    (fun qs => ?_) (answer_eq_map product) performs_multiply_iff
  rw [List.prod_eq_foldl, Number.value_integer, Int.cast_one]

/-! ## Two ways to one number -/

/-- Two ways to compute with some numbers have the same outcome, unless one of them leads to a
number and the other stops. And both lead to one number if the places of all of them, and a hundred
more for each, can be counted with two bits to spare. -/
structure Alike (ns : List Number) (r r' : Except Fault Number) : Prop where
  eq_iff : r = r' ↔ ((∃ n, r = .ok n) ↔ ∃ n, r' = .ok n)
  same : ∀ k, (∀ n ∈ ns, n.Within k) → ns.length * (k + 100) ≤ 2 ^ 61 →
    ∃ n, r = .ok n ∧ r' = .ok n

/-- Nothing but a scale that cannot be stored keeps from leading to a number. -/
def StopsOnScale (r : Except Fault Number) : Prop :=
  ∀ fault, r = .error fault → fault = .scaleOverflow

theorem StopsOnScale.bind {r : Except Fault Number} {next : Number → Except Fault Number}
    (h : StopsOnScale r) (hnext : ∀ n, StopsOnScale (next n)) : StopsOnScale (r >>= next) := by
  intro fault hfault
  rcases bind_eq_error.mp hfault with hfault | ⟨n, -, hfault⟩
  · exact h fault hfault
  · exact hnext n fault hfault

theorem StopsOnScale.eq_iff {r r' : Except Fault Number} (h : StopsOnScale r) (h' : StopsOnScale r')
    (heq : ∀ n n', r = .ok n → r' = .ok n' → n = n') :
    r = r' ↔ ((∃ n, r = .ok n) ↔ ∃ n, r' = .ok n) := by
  constructor
  · rintro rfl
    rfl
  · intro hboth
    cases hr : r with
    | ok n =>
      obtain ⟨n', hn'⟩ := hboth.mp ⟨n, hr⟩
      rw [hn', heq n n' hr hn']
    | error fault =>
      cases hr' : r' with
      | ok n' =>
        obtain ⟨n, hn⟩ := hboth.mpr ⟨n', hr'⟩
        rw [hr] at hn
        cases hn
      | error fault' => rw [h fault hr, h' fault' hr']

theorem Alike.of_exists {ns : List Number} {r r' : Except Fault Number} (h : StopsOnScale r)
    (h' : StopsOnScale r') (heq : ∀ n n', r = .ok n → r' = .ok n' → n = n')
    (hexists : ∀ k, (∀ n ∈ ns, n.Within k) → ns.length * (k + 100) ≤ 2 ^ 61 →
      (∃ n, r = .ok n) ∧ ∃ n, r' = .ok n) : Alike ns r r' where
  eq_iff := h.eq_iff h' heq
  same k hns hroom := by
    obtain ⟨⟨n, hn⟩, ⟨n', hn'⟩⟩ := hexists k hns hroom
    exact ⟨n, hn, heq n n' hn hn' ▸ hn'⟩

/-- Neither the order of numbers nor how they are grouped matters when one number is made of
them. -/
structure Rearranges (total : List Number → Except Fault Number) : Prop where
  perm : ∀ {ns ns' : List Number}, ns.Perm ns' → Alike ns (total ns) (total ns')
  append : ∀ ns ms : List Number,
    Alike (ns ++ ms) (total (ns ++ ms)) (do total [← total ns, ← total ms])

section

variable {p p' : Primitive} {total total' : List Number → Except Fault Number}
variable {exact exact' : List ℚ → ℚ} (h : Totals p total exact) {ns ms : List Number}
variable {a b m n : Number}
include h

theorem Totals.stops (ns : List Number) : StopsOnScale (total ns) :=
  fun _ hfault => (h.fault.mp hfault).1

/-- The total of two totals. -/
theorem Totals.stops_pair {r r' : Except Fault Number} (hr : StopsOnScale r)
    (hr' : StopsOnScale r') : StopsOnScale (do total [← r, ← r']) :=
  hr.bind fun _ => hr'.bind fun _ => h.stops _

theorem Totals.isInteger_pair (hn : total [a, b] = .ok n) :
    n.isInteger = true ↔ a.isInteger = true ∧ b.isInteger = true := by
  rw [h.isInteger hn, List.forall_mem_cons, List.forall_mem_singleton]

theorem Totals.value_pair (hn : total [a, b] = .ok n) : n.value = exact [a.value, b.value] :=
  h.value hn

/-- Totals are equal if they are of one kind and what they denote is equal. -/
theorem Totals.eq_of_value_eq (h' : Totals p' total' exact') (hm : total ms = .ok m)
    (hn : total' ns = .ok n) (hkind : m.isInteger = true ↔ n.isInteger = true)
    (hvalue : m.value = n.value) : m = n :=
  (Number.eq_iff_value_eq (h.isNormal hm) (h'.isNormal hn)).mpr
    ⟨Bool.eq_iff_iff.mpr hkind, hvalue⟩

/-- Two numbers of many places have a total. -/
theorem Totals.exists_pair {k : ℕ} (ha : a.Within k) (hb : b.Within k) (hroom : k ≤ 2 ^ 61 + 1) :
    ∃ n, total [a, b] = .ok n ∧ n.Within (1 + 2 * (k + 100)) :=
  h.within (List.forall_mem_cons.mpr ⟨ha, List.forall_mem_singleton.mpr hb⟩) (by
    simp only [List.length_cons, List.length_nil]
    omega)

theorem Totals.rearranges (hperm : ∀ {qs rs : List ℚ}, qs.Perm rs → exact qs = exact rs)
    (happend : ∀ qs rs, exact (qs ++ rs) = exact [exact qs, exact rs]) : Rearranges total where
  perm {ns ns'} hns := by
    refine .of_exists (h.stops ns) (h.stops ns') (fun n n' hn hn' => ?_) fun k hwithin hroom => ?_
    · refine h.eq_of_value_eq h hn hn' ?_ ?_
      · simp only [h.isInteger hn, h.isInteger hn', hns.mem_iff]
      · rw [h.value hn, h.value hn', hperm (hns.map Number.value)]
    · have hwithin' : ∀ n ∈ ns', n.Within k := fun n hn => hwithin n (hns.mem_iff.mpr hn)
      obtain ⟨n, hn, -⟩ := h.within hwithin (by omega)
      obtain ⟨n', hn', -⟩ := h.within hwithin' (by rw [← hns.length_eq]; omega)
      exact ⟨⟨n, hn⟩, ⟨n', hn'⟩⟩
  append ns ms := by
    refine .of_exists (h.stops _) (h.stops_pair (h.stops ns) (h.stops ms))
      (fun n n' hn hgrouped => ?_) fun k hwithin hroom => ?_
    · obtain ⟨a, ha, hgrouped⟩ := bind_eq_ok.mp hgrouped
      obtain ⟨b, hb, hn'⟩ := bind_eq_ok.mp hgrouped
      refine h.eq_of_value_eq h hn hn' ?_ ?_
      · rw [h.isInteger hn, h.isInteger_pair hn', h.isInteger ha, h.isInteger hb,
          List.forall_mem_append]
      · rw [h.value hn, h.value_pair hn', h.value ha, h.value hb, List.map_append, happend]
    · obtain ⟨n, hn, -⟩ := h.within hwithin (by omega)
      rw [List.length_append, Nat.add_mul] at hroom
      obtain ⟨hns, hms⟩ := List.forall_mem_append.mp hwithin
      obtain ⟨a, ha, haplaces⟩ := h.within hns (by omega)
      obtain ⟨b, hb, hbplaces⟩ := h.within hms (by omega)
      obtain ⟨n', hn', -⟩ := h.exists_pair (haplaces.mono (by omega)) (hbplaces.mono (by omega))
        (le_refl (2 ^ 61 + 1))
      exact ⟨⟨n, hn⟩, ⟨n', bind_eq_ok.mpr ⟨a, ha, bind_eq_ok.mpr ⟨b, hb, hn'⟩⟩⟩⟩

end

theorem rearranges_sum : Rearranges sum :=
  totals_sum.rearranges List.Perm.sum_eq (by simp)

theorem rearranges_product : Rearranges product :=
  totals_product.rearranges List.Perm.prod_eq (by simp)

theorem alike_product_sum (a b c : Number) :
    Alike [a, b, c] (do product [a, ← sum [b, c]])
      (do sum [← product [a, b], ← product [a, c]]) := by
  refine .of_exists
    ((totals_sum.stops _).bind fun s => totals_product.stops [a, s])
    (totals_sum.stops_pair (totals_product.stops _) (totals_product.stops _))
    (fun n n' hn hn' => ?_) fun k hwithin hroom => ?_
  · obtain ⟨s, hs, hn⟩ := bind_eq_ok.mp hn
    obtain ⟨l, hl, hn'⟩ := bind_eq_ok.mp hn'
    obtain ⟨r, hr, hn'⟩ := bind_eq_ok.mp hn'
    refine totals_product.eq_of_value_eq totals_sum hn hn' ?_ ?_
    · rw [totals_product.isInteger_pair hn, totals_sum.isInteger_pair hs,
        totals_sum.isInteger_pair hn', totals_product.isInteger_pair hl,
        totals_product.isInteger_pair hr]
      exact and_and_left
    · rw [totals_product.value_pair hn, totals_sum.value_pair hs, totals_sum.value_pair hn',
        totals_product.value_pair hl, totals_product.value_pair hr]
      simp [mul_add]
  · have hk : k ≤ 2 ^ 60 - 100 := by
      simp only [List.length_cons, List.length_nil] at hroom
      omega
    obtain ⟨ha, hb, hc⟩ : a.Within k ∧ b.Within k ∧ c.Within k := by simpa using hwithin
    obtain ⟨s, hs, hsplaces⟩ := totals_sum.exists_pair hb hc (by omega)
    obtain ⟨n, hn, -⟩ := totals_product.exists_pair (ha.mono (by omega)) hsplaces (by omega)
    obtain ⟨l, hl, hlplaces⟩ := totals_product.exists_pair ha hb (by omega)
    obtain ⟨r, hr, hrplaces⟩ := totals_product.exists_pair ha hc (by omega)
    obtain ⟨n', hn', -⟩ := totals_sum.exists_pair hlplaces hrplaces (by omega)
    exact ⟨⟨n, bind_eq_ok.mpr ⟨s, hs, hn⟩⟩,
      ⟨n', bind_eq_ok.mpr ⟨l, hl, bind_eq_ok.mpr ⟨r, hr, hn'⟩⟩⟩⟩

/-- **Sums and products do not depend on order or grouping, as long as their scales can be
stored.** On numbers, addition and multiplication answer with a sum and a product, which are exact,
unless they come across a scale that cannot be stored. The numbers may be taken in any order, and in
two portions, and a product is distributed over a sum. Two ways lead to one number in kind, digits
and scale, or both stop, unless just one of them stops. And none stops if the digits of the numbers
are near enough to the point. -/
theorem sums_and_products_rearrange (ns ns' ms : List Number) (a b c : Number) :
    (Totals add sum List.sum ∧ Totals multiply product List.prod) ∧
    (ns.Perm ns' → Alike ns (sum ns) (sum ns') ∧ Alike ns (product ns) (product ns')) ∧
    (Alike (ns ++ ms) (sum (ns ++ ms)) (do sum [← sum ns, ← sum ms]) ∧
      Alike (ns ++ ms) (product (ns ++ ms)) (do product [← product ns, ← product ms])) ∧
    Alike [a, b, c] (do product [a, ← sum [b, c]])
      (do sum [← product [a, b], ← product [a, c]]) := by
  refine ⟨⟨totals_sum, totals_product⟩, fun hns => ?_, ?_, alike_product_sum a b c⟩
  · exact ⟨rearranges_sum.perm hns, rearranges_product.perm hns⟩
  · exact ⟨rearranges_sum.append ns ms, rearranges_product.append ns ms⟩

/-- Zeros of either kind, and decimals that cancel each other, before and behind an integer. -/
theorem sums_and_products_rearrange_zeros :
    let zeros : List Number := [.integer 0, .decimal ⟨0, 0⟩]
    let ns : List Number := zeros ++ [.decimal ⟨5, 1⟩, .integer 3, .decimal ⟨-5, 1⟩]
    let ns' : List Number := [.decimal ⟨-5, 1⟩, .decimal ⟨5, 1⟩, .integer 3] ++ zeros
    ns.Perm ns' ∧ (∃ n, sum ns = .ok n ∧ sum ns' = .ok n) ∧
      ∃ n, product ns = .ok n ∧ product ns' = .ok n := by
  intro zeros ns ns'
  have hns : ns.Perm ns' := by decide
  have hwithin : ∀ n ∈ ns, n.Within 1 := by
    intro n hn
    obtain rfl | rfl | rfl | rfl | rfl : n = .integer 0 ∨ n = .decimal ⟨0, 0⟩ ∨
        n = .decimal ⟨5, 1⟩ ∨ n = .integer 3 ∨ n = .decimal ⟨-5, 1⟩ := by
      simpa [ns, zeros] using hn
    all_goals exact ⟨by decide, by decide, by norm_num [Number.toDecimal, Decimal.value]⟩
  obtain ⟨-, hperm, -⟩ :=
    sums_and_products_rearrange ns ns' [] (.integer 0) (.integer 0) (.integer 0)
  obtain ⟨hsum, hproduct⟩ := hperm hns
  exact ⟨hns, hsum.same 1 hwithin (by decide), hproduct.same 1 hwithin (by decide)⟩

/-- **Not every sum of products can be stored that is a product**: a tenfold of the largest power of
ten has a scale which cannot be stored, even if nine parts of it are taken away again. -/
theorem distribution_overflows :
    ¬ ∀ a b c : Number, (∀ n ∈ [a, b, c], n.IsNormal ∧ Decimal.IsScale n.toDecimal.scale) →
      (do product [a, ← sum [b, c]]) = (do sum [← product [a, b], ← product [a, c]]) := by
  intro hall
  let a : Number := .decimal ⟨1, -9223372036854775808⟩
  let b : Number := .decimal ⟨1, -1⟩
  let c : Number := .decimal ⟨-9, 0⟩
  have hleft : (do product [a, ← sum [b, c]]) = .ok a := by decide +kernel
  have hright : (do sum [← product [a, b], ← product [a, c]]) = .error .scaleOverflow := by
    decide +kernel
  have heq := hall a b c (by decide)
  rw [hleft, hright] at heq
  cases heq

end SmallScheme.Primitive
