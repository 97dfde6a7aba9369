import SmallScheme.Proofs.Interpreter.Content

/-!
# Which faults can be reported

A fault is reported with its kind and its message. The message shows the value at fault, so there is
none when that value has no text, and the values without a text are those that hold a decimal with
more zeros behind its digits than are written (`Value.text?_eq_none_iff`).

No literal spells such a decimal, but products of literals may be such decimals. So there are
programs whose faults cannot be reported (`Session.unreported_power`). The only other fault that
cannot be reported is that of a scale which cannot be stored, and there is neither as long as all
numbers in what is read and evaluated are integers (`Session.fault_reported_iff`).
-/

namespace SmallScheme

/-! ## Values without a text -/

theorem Decimal.text?_eq_none_iff {d : Decimal} : d.text? = none ↔ d.scale < -4294967295 := by
  unfold text? maxZeros
  by_cases hscale : d.scale ≤ 0
  · rw [if_pos hscale]
    by_cases hfew : d.scale.natAbs ≤ 4294967295
    · rw [if_pos hfew]
      simp only [reduceCtorEq, false_iff]
      omega
    · rw [if_neg hfew]
      simp only [true_iff]
      omega
  · rw [if_neg hscale]
    simp only [reduceCtorEq, false_iff]
    omega

namespace Value

theorem renderAll?_eq_none_iff {items : List Value} :
    renderAll? .plain items = none ↔ ∃ v ∈ items, v.text? = none := by
  induction items with
  | nil => simp [renderAll?]
  | cons v rest ih =>
    rw [List.exists_mem_cons_iff, ← ih, text?, renderAll?]
    cases render? .plain v <;> cases renderAll? .plain rest <;> simp

theorem text?_eq_none_iff {v : Value} :
    v.text? = none ↔ ∃ d, .number (.decimal d) ∈ v.parts ∧ d.scale < -4294967295 := by
  induction v using induction_on with
  | bool b => simp
  | symbol name => simp
  | number n =>
    cases n with
    | integer n => simp [Number.text?]
    | decimal d => simp [Number.text?, Decimal.text?_eq_none_iff]
  | list items ih =>
    rw [text?_list, Option.map_eq_none_iff, renderAll?_eq_none_iff]
    constructor
    · rintro ⟨v, hv, htext⟩
      obtain ⟨d, hd, hscale⟩ := (ih v hv).mp htext
      exact ⟨d, mem_parts_list.mpr (.inr ⟨v, hv, hd⟩), hscale⟩
    · rintro ⟨d, hd, hscale⟩
      obtain heq | ⟨v, hv, hd⟩ := mem_parts_list.mp hd
      · cases heq
      · exact ⟨v, hv, (ih v hv).mpr ⟨d, hd, hscale⟩⟩

end Value

/-! ## Values without decimals -/

/-- Arithmetic on integers stays among the integers. -/
theorem Number.closed_isInteger : Closed fun n => n.isInteger = true where
  zero := rfl
  one := rfl
  result hoperands hresult := (Computation.isInteger_of_result? hresult).mpr hoperands

namespace Value

/-- Every number in the value is an integer. -/
def IntegersOnly (v : Value) : Prop :=
  ∀ n, .number n ∈ v.parts → n.isInteger = true

theorem inherited_integersOnly : Inherited IntegersOnly where
  toCarried := carried_numbers (·.isInteger = true)
  number := by
    have hnumber : ∀ n, IntegersOnly (.number n) ↔ n.isInteger = true := fun _ => numbers_number
    simpa only [hnumber] using Number.closed_isInteger

theorem IntegersOnly.text?_ne_none {v : Value} (h : v.IntegersOnly) : v.text? ≠ none := by
  intro htext
  obtain ⟨d, hd, -⟩ := text?_eq_none_iff.mp htext
  cases h _ hd

end Value

/-! ## Faults -/

/-- A fault that has a kind and a message. -/
def Fault.Reported (fault : Fault) : Prop :=
  fault.kind?.isSome ∧ fault.message?.isSome

instance (fault : Fault) : Decidable fault.Reported :=
  inferInstanceAs (Decidable (_ ∧ _))

/-- A fault is reported exactly if the value that it shows has a text and no scale is at fault. -/
theorem Fault.Shows.reported_iff {p : Value → Prop} {fault : Fault} (h : fault.Shows p) :
    fault.Reported ↔ fault ≠ .scaleOverflow ∧ ∀ v ∈ fault.shown?, v.text? ≠ none := by
  cases fault with
  | unprintable v =>
    have htext := h.textless v rfl
    simp [Reported, kind?, shown?, htext]
  | _ => simp [Reported, kind?, message?, around?, shown?, Option.isSome_iff_ne_none]

/-- The fault that a reply tells of. -/
def Reply.fault? : Reply → Option Fault
  | value (.error (.evaluation fault)) | values (.error (.evaluation fault)) => some fault
  | _ => none

theorem Reply.Holds.shows {good : Value → Prop} {reply : Reply} (h : reply.Holds good)
    {fault : Fault} (hfault : fault ∈ reply.fault?) : fault.Shows good := by
  unfold Reply.fault? at hfault
  split at hfault <;> cases hfault
  · exact h
  · exact h

/-! ## Sessions -/

namespace Session

/-- **Faults are reported unless they show a decimal without a text, or no scale could be stored.**
In every session, a fault has a kind and a message if and only if it is not that of a scale which
cannot be stored, and no decimal in the value that it shows needs more zeros behind its digits than
are written. And if all numbers in what the requests bring are integers, then every fault has a kind
and a message. -/
theorem fault_reported_iff (reader : Reader.Config) (config : Environment.Config)
    (requests : List Request) :
    let replies := ((start (.fresh reader config)).handleAll requests).1
    (∀ reply ∈ replies, ∀ fault ∈ reply.fault?,
      (fault.Reported ↔ fault ≠ .scaleOverflow ∧
        ∀ v ∈ fault.shown?, ∀ d, .number (.decimal d) ∈ v.parts → -4294967295 ≤ d.scale)) ∧
      ((∀ request ∈ requests, request.Brings reader Value.IntegersOnly) →
        ∀ reply ∈ replies, ∀ fault ∈ reply.fault?, fault.Reported) := by
  intro replies
  constructor
  · intro reply hreply fault hfault
    have hbrings : ∀ request ∈ requests, request.Brings reader fun _ => True :=
      fun request _ => request.brings_true reader
    obtain ⟨hreplies, -⟩ :=
      content_handleAll Value.inherited_true (holds_start reader config) hbrings
    have hshows := (hreplies reply hreply).shows hfault
    rw [hshows.reported_iff]
    simp only [Ne, Value.text?_eq_none_iff, not_exists, not_and, Int.not_lt]
  · intro hbrings reply hreply fault hfault
    obtain ⟨hreplies, -⟩ :=
      content_handleAll Value.inherited_integersOnly (holds_start reader config) hbrings
    have hshows := (hreplies reply hreply).shows hfault
    refine hshows.reported_iff.mpr ⟨fun hoverflow => ?_, fun v hv =>
      (hshows.value v hv).text?_ne_none⟩
    obtain ⟨d, hd⟩ := hshows.decimal hoverflow
    cases hd (.decimal d) (by simp)

/-- The fault of a call that shows the form that was called, in a session without decimals. -/
theorem fault_reported_iff_wrong_parameters :
    let text := "((list (quote lambda) 1 2) 3)"
    let replies := ((start (.fresh {} {})).handleAll [.run text]).1
    (Request.run text).Brings {} Value.IntegersOnly ∧
      ∃ reply ∈ replies, ∃ fault ∈ reply.fault?, fault.shown?.isSome ∧ fault.Reported := by
  intro text replies
  have hbrings : (Request.run text).Brings {} Value.IntegersOnly := by
    intro v hv
    have hread : (Reader.readOne {} text).toOption = some (.list [
        .list [.symbol "list", .list [.symbol "quote", .symbol "lambda"], .number (.integer 1),
          .number (.integer 2)],
        .number (.integer 3)]) := by decide +kernel
    rw [hv] at hread
    cases hread
    intro n hn
    obtain (rfl | rfl) | rfl : (n = .integer 1 ∨ n = .integer 2) ∨ n = .integer 3 := by
      simpa using hn
    all_goals rfl
  have hall := (fault_reported_iff {} {} [.run text]).2 fun request hrequest =>
    List.mem_singleton.mp hrequest ▸ hbrings
  obtain ⟨reply, hreply, fault, hfault, hshown⟩ : ∃ reply ∈ replies, ∃ fault ∈ reply.fault?,
      fault.shown?.isSome := by decide +kernel
  exact ⟨hbrings, reply, hreply, fault, hfault, hshown, hall reply hreply fault hfault⟩

/-- **Not every fault is reported**: a call has no key, and its fault no message, when a power of a
literal in the form that is called has no text. -/
theorem unreported_power :
    ¬ ∀ (reader : Reader.Config) (config : Environment.Config) (texts : List String),
      ∀ reply ∈ ((start (.fresh reader config)).handleAll (texts.map .run)).1,
        ∀ fault ∈ reply.fault?, fault.Reported := by
  intro hall
  have hsession := hall {} {} [
    "(define p (lambda (x) (* x x x x x x x x x x x x x x x x)))",
    "(define b (p (p (p (p (p 1.0e4096))))))",
    "((list (quote lambda) (quote (y)) (list (quote if) #t 1 b)) 0)"]
  revert hsession
  decide +kernel

end Session

end SmallScheme
