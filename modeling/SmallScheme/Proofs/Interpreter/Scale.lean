import Mathlib.Algebra.BigOperators.Ring.List
import SmallScheme.Proofs.Evaluation.Computed
import SmallScheme.Proofs.Interpreter.ReadBack
import SmallScheme.Proofs.Reader.Numbers

/-!
# How large scales become

The scale of a decimal that is read is limited, but the scales of products are not. Every number
that a session comes to is derived from the numbers in its texts, from zero and from one, by the
computations that the session performs (`Session.Derives`). Such a derivation has a weight: how many
of these numbers it starts from, each counted as often as it is used. No computation adds more than
a hundred places to those of its operands. So the scales of the decimals that it makes, before and
after normal form, are at most the weight of its operands times a factor that depends on the length
of the texts (`Session.scales_within_weight`).

So scales fit 64 bits as long as weights are small, but a function that raises to a power multiplies
the weight with every call, and a few calls are enough for a scale that does not fit
(`Session.scale_too_large`). There the evaluation stops.
-/

namespace SmallScheme

open Number (Computation)

/-! ## What texts bring -/

/-- A number stands in what a request reads, or in the expression that it brings. -/
def Request.Reads (reader : Reader.Config) (n : Number) : Request → Prop
  | run text | read text => ∃ v, Reader.readOne reader text = .ok v ∧ .number n ∈ v.parts
  | runAll text => ∃ vs, Reader.readAll reader text = .ok vs ∧ ∃ v ∈ vs, .number n ∈ v.parts
  | evaluate e => .number n ∈ e.parts
  | bindings | query _ | config | save | restore => False

/-- How many characters the text of a request has. -/
def Request.length : Request → ℕ
  | run text | runAll text | read text => text.length
  | evaluate _ | bindings | query _ | config | save | restore => 0

namespace Request

variable {reader : Reader.Config} {request : Request}

theorem brings_of_reads {good : Number → Prop} (h : ∀ n, request.Reads reader n → good n) :
    request.Brings reader (Value.Numbers good) := by
  cases request with
  | run text | read text => exact fun v hv n hn => h n ⟨v, hv, hn⟩
  | runAll text => exact fun vs hvs v hv n hn => h n ⟨vs, hvs, v, hv, hn⟩
  | evaluate e => exact h
  | bindings | query name | config | save | restore => trivial

theorem Reads.within {n : Number} (h : request.Reads reader n) (htext : request.IsText)
    {length : ℕ} (hlength : request.length ≤ length) : n.Within (length + 4096) := by
  cases request with
  | run text | read text =>
    obtain ⟨v, hv, hn⟩ := h
    exact (Reader.within_of_readOne hv n hn).mono (Nat.add_le_add_right hlength 4096)
  | runAll text =>
    obtain ⟨vs, hvs, v, hv, hn⟩ := h
    exact (Reader.within_of_readAll hvs v hv n hn).mono (Nat.add_le_add_right hlength 4096)
  | evaluate e => exact htext.elim
  | bindings | query name | config | save | restore => exact h.elim

end Request

namespace Session

/-! ## What is computed -/

/-- In the course of a session, a computation is performed. -/
inductive Performs (s : Session) (requests : List Request) : Computation → Prop
  | intro {turn : Value × Environment} {p : Primitive} {ns : List Number} {c : Computation}
      (hturn : turn ∈ s.turns requests)
      (hcomputes : Evaluation.Computes turn.2.maxDepth turn.1 turn.2 p (ns.map .number))
      (hperforms : p.Performs ns c) : Performs s requests c

/-- A session comes to a number from so many numbers that it is given, each counted as often as it
is used. -/
inductive Derives (s : Session) (requests : List Request) : ℕ → Number → Prop
  | zero : Derives s requests 1 (.integer 0)
  | one : Derives s requests 1 (.integer 1)
  | read {request : Request} {n : Number} (hrequest : request ∈ requests)
      (hreads : request.Reads s.current.reader n) : Derives s requests 1 n
  | computed {c : Computation} {n : Number} {weight : Number → ℕ}
      (hperforms : s.Performs requests c)
      (hoperands : ∀ a ∈ c.operands, Derives s requests (weight a) a)
      (hresult : c.result? = some n) : Derives s requests (c.operands.map weight).sum n

/-- A session comes to a number. -/
def ComesTo (s : Session) (requests : List Request) (n : Number) : Prop :=
  ∃ weight, s.Derives requests weight n

variable {s : Session} {requests : List Request}

theorem ComesTo.computed {c : Computation} {n : Number} (hperforms : s.Performs requests c)
    (hoperands : ∀ a ∈ c.operands, s.ComesTo requests a) (hresult : c.result? = some n) :
    s.ComesTo requests n := by
  choose! weight hweight using hoperands
  exact ⟨_, .computed hperforms hweight hresult⟩

section

variable {turn : Value × Environment} {p : Primitive} {values : List Value}
variable (hturn : turn ∈ s.turns requests)
include hturn

/-- What primitives answer comes from what they are applied to. -/
theorem comesTo_apply (hcomputes : Evaluation.Computes turn.2.maxDepth turn.1 turn.2 p values)
    (hvalues : ∀ w ∈ values, w.Numbers (s.ComesTo requests)) {v : Value}
    (hv : p.apply values = .ok v) : v.Numbers (s.ComesTo requests) := by
  refine p.carried_apply (Value.carried_numbers _) hvalues hv fun ns n hns hanswer => ?_
  subst hns
  have hcomes : ∀ n ∈ ns, s.ComesTo requests n := by simpa using hvalues
  exact Value.numbers_number.mpr (Primitive.of_performs hcomes
    (fun hperforms => .computed (.intro hturn hcomputes hperforms)) ⟨1, .zero⟩ ⟨1, .one⟩ hanswer)

theorem passesOn_comesTo : PassesOn (Value.Numbers (s.ComesTo requests)) turn :=
  Evaluation.leaves_of_computes (Value.carried_numbers _)
    fun hcomputes hvalues hv => comesTo_apply hturn hcomputes hvalues hv

end

section

variable {reader : Reader.Config}
variable (hs : s.Holds reader (Value.Numbers (s.ComesTo requests)))
include hs

/-- A session comes to all numbers in its replies and in its environments, if it comes to those that
are there in the beginning. -/
theorem comesTo_handleAll :
    (∀ reply ∈ (s.handleAll requests).1, reply.Holds (Value.Numbers (s.ComesTo requests))) ∧
      (s.handleAll requests).2.Holds reader (Value.Numbers (s.ComesTo requests)) ∧
      ∀ turn ∈ s.turns requests, StartsWith (Value.Numbers (s.ComesTo requests)) turn := by
  refine hs.handleAll (fun request hrequest => ?_) fun turn hturn => passesOn_comesTo hturn
  refine Request.brings_of_reads fun n hreads => ?_
  rw [← hs.current.reader] at hreads
  exact ⟨1, .read hrequest hreads⟩

/-- It also comes to the operands of all computations. -/
theorem Performs.comesTo {c : Computation} (h : s.Performs requests c) :
    ∀ a ∈ c.operands, s.ComesTo requests a := by
  obtain @⟨turn, p, ns, c, hturn, hcomputes, hperforms⟩ := h
  obtain ⟨he, hholds⟩ := (comesTo_handleAll hs).2.2 turn hturn
  have hvalues := Evaluation.carried_of_computes (Value.carried_numbers _)
    (fun hcomputes hvalues hv => comesTo_apply hturn hcomputes hvalues hv) he hholds hcomputes
  have hcomes : ∀ n ∈ ns, s.ComesTo requests n := by simpa using hvalues
  exact Primitive.operands_of_performs hcomes
    (fun hperforms => .computed (.intro hturn hcomputes hperforms)) ⟨1, .zero⟩ ⟨1, .one⟩ hperforms

end

/-! ## Weights -/

section

variable {weight : Number → ℕ} {unit : ℕ}

theorem sum_map_weight {as : List Number} (hpos : ∀ a ∈ as, 1 ≤ weight a) (hunit : 100 ≤ unit) :
    (as.map fun a => weight a * unit - 100 + 100).sum = (as.map weight).sum * unit := by
  rw [← List.sum_map_mul_right]
  refine congrArg List.sum (List.map_congr_left fun a ha => Nat.sub_add_cancel ?_)
  exact hunit.trans (Nat.le_mul_of_pos_left unit (hpos a ha))

theorem one_le_weight {c : Computation} (hpos : ∀ a ∈ c.operands, 1 ≤ weight a) :
    1 ≤ (c.operands.map weight).sum := by
  obtain ⟨a, ha⟩ : ∃ a, a ∈ c.operands := by
    cases c <;> exact ⟨_, .head _⟩
  exact (hpos a ha).trans (List.le_sum_of_mem (List.mem_map_of_mem ha))

/-- A computation has room for the hundred places that it adds, if each of its operands has room for
its own. -/
theorem within_weight {c : Computation} (hunit : 100 ≤ unit)
    (hoperands : ∀ a ∈ c.operands, 1 ≤ weight a ∧ a.Within (weight a * unit - 100)) :
    (∀ d ∈ c.decimals, d.scale.natAbs ≤ (c.operands.map weight).sum * unit - 100) ∧
      ∀ n, c.result? = some n → n.Within ((c.operands.map weight).sum * unit - 100) := by
  have hpos : ∀ a ∈ c.operands, 1 ≤ weight a := fun a ha => (hoperands a ha).1
  have hroom : 100 ≤ (c.operands.map weight).sum * unit :=
    hunit.trans (Nat.le_mul_of_pos_left unit (one_le_weight hpos))
  refine Computation.within (fun a ha => (hoperands a ha).2) ?_
  rw [sum_map_weight hpos hunit, Nat.sub_add_cancel hroom]

end

section

variable {length : ℕ}
variable (htexts : ∀ request ∈ requests, request.IsText ∧ request.length ≤ length)
include htexts

/-- A derived number keeps a hundred of the places that its weight has room for free: these are what
the next computation adds. -/
theorem Derives.within {weight : ℕ} {n : Number} (h : s.Derives requests weight n) :
    1 ≤ weight ∧ n.Within (weight * (length + 4196) - 100) := by
  have hunit : ∀ k : ℤ, |k| ≤ 1 → (Number.integer k).Within (1 * (length + 4196) - 100) := by
    intro k hk
    refine Number.within_integer ?_
    calc |(Number.integer k).value| ≤ 1 := by
          rw [Number.value_integer]
          exact_mod_cast hk
      _ < 10 ^ (1 * (length + 4196) - 100) := one_lt_pow₀ (by norm_num) (by omega)
  induction h with
  | zero => exact ⟨le_rfl, hunit 0 (by norm_num)⟩
  | one => exact ⟨le_rfl, hunit 1 (by norm_num)⟩
  | @read request n hrequest hreads =>
    obtain ⟨htext, hlength⟩ := htexts request hrequest
    exact ⟨le_rfl, (hreads.within htext hlength).mono (by omega)⟩
  | @computed c n weight hperforms hoperands hresult ih =>
    exact ⟨one_le_weight fun a ha => (ih a ha).1, (within_weight (by omega) ih).2 n hresult⟩

end

/-- **Scales grow no faster than the weight of what they are computed from.** In every session of
texts of at most so many characters, the operands of each computation that is performed are derived
from the numbers in the texts, from zero and from one, by computations that are performed. However
they are derived, the decimals that the computation makes, before and after normal form, have scales
that are at most the weight of its operands times a factor that depends on the length of the texts.
So these scales fit 64 bits if this product does. -/
theorem scales_within_weight (reader : Reader.Config) (config : Environment.Config)
    {requests : List Request} {length : ℕ}
    (htexts : ∀ request ∈ requests, request.IsText ∧ request.length ≤ length) :
    let s := start (.fresh reader config)
    ∀ c, s.Performs requests c →
      (∀ a ∈ c.operands, ∃ weight, s.Derives requests weight a) ∧
      ∀ weight : Number → ℕ, (∀ a ∈ c.operands, s.Derives requests (weight a) a) →
        (∀ d ∈ c.decimals, d.scale.natAbs ≤ (c.operands.map weight).sum * (length + 4196)) ∧
        ((c.operands.map weight).sum * (length + 4196) < 2 ^ 63 →
          ∀ d ∈ c.decimals, -2 ^ 63 ≤ d.scale ∧ d.scale < 2 ^ 63) := by
  intro s c hperforms
  refine ⟨Performs.comesTo (holds_start reader config) hperforms, fun weight hweight => ?_⟩
  obtain ⟨hscales, -⟩ :=
    within_weight (by omega) fun a ha => (hweight a ha).within htexts
  refine ⟨fun d hd => (hscales d hd).trans (Nat.sub_le _ _), fun hfits d hd => ?_⟩
  have hscale := hscales d hd
  omega

/-- A turn that is a product multiplies what it has come to by the next factor. -/
theorem performs_product (room : ℕ) {front : List Number} {total : Number}
    (htotal : Primitive.product front = .ok total) (n : Number) (rest : List Number)
    {operands : List Value} {env : Environment}
    (hturn : (.list (.symbol "*" :: operands), env) ∈ s.turns requests)
    (hroom : env.maxDepth = room + 1)
    (hvalues : ((operands.mapM (Evaluation.evaluate room)).outcome env).1 =
      .ok ((front ++ n :: rest).map .number)) :
    s.Performs requests (.multiply total n) := by
  have hop : Operator.named? "*" = some ⟨"*", .atLeast 0, .primitive .multiply⟩ := by decide
  refine .intro hturn ?_ (.multiply htotal n rest)
  rw [hroom]
  exact .intro (.start ..) (.intro hop rfl (by simp [Arity.admits]) (Prod.ext hvalues rfl))

/-- The product of two numbers in a text. -/
theorem scales_within_weight_product :
    let requests := [Request.run "(* 2.5 1.0e3)"]
    let s := start (.fresh {} {})
    let c := Computation.multiply (.decimal ⟨25, 1⟩) (.decimal ⟨1, -3⟩)
    (∀ request ∈ requests, request.IsText ∧ request.length ≤ 13) ∧ s.Performs requests c ∧
      (∀ a ∈ c.operands, s.Derives requests 1 a) ∧ c.decimals = [⟨25, -2⟩, ⟨25, -2⟩] ∧
      ∀ d ∈ c.decimals, -2 ^ 63 ≤ d.scale ∧ d.scale < 2 ^ 63 := by
  intro requests s c
  have htexts : ∀ request ∈ requests, request.IsText ∧ request.length ≤ 13 :=
    List.forall_mem_singleton.mpr ⟨trivial, by decide⟩
  have hread : Reader.readOne {} "(* 2.5 1.0e3)" = .ok (.list [.symbol "*",
      .number (.decimal ⟨25, 1⟩), .number (.decimal ⟨1, -3⟩)]) := by decide +kernel
  have hderives : ∀ a ∈ c.operands, s.Derives requests 1 a := fun a ha =>
    .read (.head _) ⟨_, hread, by simpa [c, Computation.operands] using ha⟩
  have hturn : (.list (.symbol "*" :: [.number (.decimal ⟨25, 1⟩), .number (.decimal ⟨1, -3⟩)]),
      .fresh {}) ∈ s.turns requests := by
    refine List.mem_append_left _ ?_
    rw [Request.expressions, show s.current.reader = {} from rfl, hread]
    exact .head _
  have hproduct : Primitive.product [.decimal ⟨25, 1⟩] = .ok (.decimal ⟨25, 1⟩) := by
    decide +kernel
  have hperforms : s.Performs requests c :=
    performs_product 255 hproduct (.decimal ⟨1, -3⟩) [] hturn rfl rfl
  obtain ⟨-, hscales⟩ := scales_within_weight {} {} htexts c hperforms
  exact ⟨htexts, hperforms, hderives, by decide +kernel,
    (hscales (fun _ => 1) hderives).2 (by decide)⟩

/-- **Not every scale fits 64 bits**: a few calls of a function that raises to a power come to a
product with more zeros behind its digits than can be counted so. -/
theorem scale_too_large :
    ¬ ∀ (reader : Reader.Config) (config : Environment.Config) (requests : List Request),
      (∀ request ∈ requests, request.IsText) →
        ∀ c, (start (.fresh reader config)).Performs requests c →
          ∀ d ∈ c.decimals, -2 ^ 63 ≤ d.scale ∧ d.scale < 2 ^ 63 := by
  intro hall
  let setup := ["(define p (lambda (x) (* x x x x x x x x x x x x x x x x)))",
    "(define b (p (p (p (p (p 1.0e4096))))))", "(define c (p (p (p (p (p (p (p b))))))))",
    "(define m (* c c c c))"].map Request.run
  let last := Request.run "(* m m m m)"
  let s := start (.fresh {} {})
  let m : Number := .decimal ⟨1, -4611686018427387904⟩
  have htexts : ∀ request ∈ setup ++ [last], request.IsText := by
    simp [setup, last, Request.IsText]
  have hreader : (s.handleAll setup).2.current.reader = {} :=
    (content_handleAll Value.inherited_true (holds_start {} {})
      fun request _ => request.brings_true {}).2.current.reader
  have hread : last.expressions {} = [.list (.symbol "*" :: List.replicate 4 (.symbol "m"))] := by
    decide +kernel
  have hturn : (.list (.symbol "*" :: List.replicate 4 (.symbol "m")),
      (s.handleAll setup).2.current.environment) ∈ s.turns (setup ++ [last]) := by
    rw [turns_append]
    refine List.mem_append_right _ (List.mem_append_left _ ?_)
    rw [hreader, hread]
    exact .head _
  have hproduct : Primitive.product [m, m] = .ok (.decimal ⟨1, -9223372036854775808⟩) := by
    decide +kernel
  have hperforms : s.Performs (setup ++ [last])
      (.multiply (.decimal ⟨1, -9223372036854775808⟩) m) :=
    performs_product 255 hproduct m [m] hturn (by decide +kernel) (by decide +kernel)
  have hscale := hall {} {} _ htexts _ hperforms ⟨1, -13835058055282163712⟩ (by decide +kernel)
  revert hscale
  decide

end Session

end SmallScheme
