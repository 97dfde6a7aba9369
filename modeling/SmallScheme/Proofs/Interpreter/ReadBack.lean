import SmallScheme.Proofs.Interpreter.Content
import SmallScheme.Proofs.Number.Computation
import SmallScheme.Proofs.Value.Written

/-!
# Which results can be read back

Values are written in the style in which programs are written. What a session of texts computes is
made of what it has read, of truth values, of numbers in normal form, and of two symbols that
evaluation puts in: `quote`, and the mark between the two sides of a pair. So every number in a
result is in normal form, and every symbol but the mark is the text of a symbol (`Value.Written`).

There are three reasons for which a result with a text is not read back from it, and no others: it
holds a pair, for which there is no notation; it holds a list of nothing but a comparison, which the
reader refuses; or it holds a decimal whose scale is beyond what literals may have. Without these
(`Value.Respellable`) every result that is not nested too deeply is read back
(`Session.results_read_back_iff`).
-/

namespace SmallScheme

open Grammar

namespace Number

/-- Arithmetic answers in normal form. -/
theorem closed_isNormal : Closed IsNormal where
  zero := trivial
  one := trivial
  result _ hresult := Computation.isNormal_of_result? hresult

end Number

namespace Value

/-! ## What is computed from what was read -/

theorem isSymbolText_quote : IsSymbolText "quote".toList := by
  have hq : IsAtomChar 'q' := by decide
  have hu : IsAtomChar 'u' := by decide
  have ho : IsAtomChar 'o' := by decide
  have ht : IsAtomChar 't' := by decide
  have he : IsAtomChar 'e' := by decide
  exact ⟨.inl (by decide), by simp [hq, hu, ho, ht, he], by simp [BeginsNumber]⟩

theorem inherited_written : Inherited Written where
  list _ := written_list
  bool b := ⟨by simp [IsNormal], by simp⟩
  dot := ⟨by simp [IsNormal, dot], by simp [dot]⟩
  quote := by
    refine ⟨by simp [IsNormal], fun name hname => .inr ?_⟩
    obtain rfl : name = "quote" := by simpa using hname
    exact isSymbolText_quote
  number := by simpa only [written_number] using Number.closed_isNormal

/-! ## What is read back -/

/-- There is a notation for everything in the value: there are no pairs in it, no list of nothing
but a comparison, and no decimal with a scale that literals cannot have. -/
structure Respellable (v : Value) : Prop where
  unpaired : .dot ∉ v.parts
  lists : ∀ items, .list items ∈ v.parts → ¬IsLoneComparison items
  decimals : ∀ d, .number (.decimal d) ∈ v.parts → d.scale.natAbs ≤ 4096

theorem not_isSymbolText_dot : ¬IsSymbolText ".".toList := by
  intro h
  have hletter : Text.isLetter '.' = false := by decide
  simpa [BeginsSymbol, hletter] using h.begins

theorem Written.readable_iff {depth : Nat} {v : Value} (h : v.Written)
    (hnesting : v.nesting ≤ depth) : v.Readable depth ↔ v.Respellable := by
  constructor
  · intro hread
    refine ⟨fun hdot => ?_, hread.lists, hread.decimals⟩
    exact not_isSymbolText_dot (hread.symbols "." hdot)
  · intro hspell
    refine ⟨fun name hname => ?_, hspell.decimals, hspell.lists, hnesting⟩
    refine (h.symbols name hname).resolve_left ?_
    rintro rfl
    exact hspell.unpaired hname

/-- A value that is computed from what was read is read back from its text, unless there is no
notation for something in it. -/
theorem Written.readOne_iff {reader : Reader.Config} {v : Value} (h : v.Written)
    (hnesting : v.nesting ≤ reader.maxDepth) {text : List Char} (htext : v.text? = some text) :
    Reader.readOne reader (String.ofList text) = .ok v ↔ v.Respellable := by
  rw [← h.readable_iff hnesting]
  constructor
  · exact Reader.readable_of_readOne
  · intro hread
    have hwritten : ∃ text, v.text? = some text ∧
        Derives reader.comments reader.maxDepth text v := exists_derives v h.normal hread
    obtain ⟨text', htext', hderives⟩ := hwritten
    obtain rfl : text' = text := Option.some.inj (htext'.symm.trans htext)
    exact Reader.readOne_of_derives hderives

end Value

/-! ## Requests and replies -/

/-- A request that brings nothing into a session but what is read from its text. -/
def Request.IsText : Request → Prop
  | evaluate _ => False
  | _ => True

theorem Request.IsText.brings {request : Request} (h : request.IsText) (reader : Reader.Config) :
    request.Brings reader Value.Written := by
  cases request with
  | run text | read text =>
    intro v hread
    exact (Reader.readable_of_readOne hread).written (Reader.isNormal_of_readOne hread)
  | runAll text =>
    intro vs hread v hv
    have hitems := Reader.items_of_readAll hread
    exact (readable_of_items hitems v hv).written (isNormal_of_items hitems v hv)
  | evaluate e => exact h.elim
  | bindings | query _ | config | save | restore => trivial

theorem Reply.Holds.imp {p q : Value → Prop} {reply : Reply} (h : reply.Holds p)
    (himp : ∀ v, p v → q v) : reply.Holds q := by
  have hfailure : ∀ failure : Failure, failure.Shows p → failure.Shows q := by
    intro failure hshown
    cases failure with
    | reading e => trivial
    | evaluation fault => exact Fault.Shows.imp hshown himp
  cases reply with
  | value result =>
    cases result with
    | ok v => exact himp v h
    | error failure => exact hfailure failure h
  | values result =>
    cases result with
    | ok vs => exact fun v hv => himp v (h v hv)
    | error failure => exact hfailure failure h
  | bindings entries => exact fun b hb => himp b.2 (h b hb)
  | binding defined v f => exact ⟨fun w hw => himp w (h.1 w hw), fun g hg => himp _ (h.2 g hg)⟩
  | config c | saved | restored => trivial

namespace Session

/-- **Results are read back from their texts, with three exceptions.** In every session of texts,
each value in a reply that has a text and is not nested too deeply is read back from that text if
and only if it holds no pair, no list of nothing but a comparison, and no decimal with a scale that
literals cannot have. -/
theorem results_read_back_iff (reader : Reader.Config) (config : Environment.Config)
    {requests : List Request} (htexts : ∀ request ∈ requests, request.IsText) :
    ∀ reply ∈ ((start (.fresh reader config)).handleAll requests).1,
      reply.Holds fun v => v.nesting ≤ reader.maxDepth → ∀ text, v.text? = some text →
        (Reader.readOne reader (String.ofList text) = .ok v ↔ v.Respellable) := by
  intro reply hreply
  have hbrings : ∀ request ∈ requests, request.Brings reader Value.Written :=
    fun request hrequest => (htexts request hrequest).brings reader
  obtain ⟨hreplies, -⟩ := content_handleAll Value.inherited_written (holds_start reader config) hbrings
  exact (hreplies reply hreply).imp fun v hv hnesting text htext => hv.readOne_iff hnesting htext

theorem mem_replies_run {i : Interpreter} {text : String} {v : Value}
    (h : (i.run text).1.toOption = some v) :
    .value (.ok v) ∈ ((start i).handleAll [.run text]).1 := by
  have hreplies : ((start i).handleAll [.run text]).1 = [.value (i.run text).1] := rfl
  rw [hreplies, List.mem_singleton]
  generalize (i.run text).1 = result at *
  cases result with
  | ok w => rw [Option.some.inj h]
  | error failure => cases h

/-- An element in front of a list with a decimal and a comparison in it. -/
theorem results_read_back_iff_list :
    let source := "(cons 1 (list 2.5 (quote <)))"
    let replies := ((start (.fresh {} {})).handleAll [.run source]).1
    let v : Value := .list [.number (.integer 1), .number (.decimal ⟨25, 1⟩), .symbol "<"]
    let text := "(1 2.5 <)".toList
    (∀ request ∈ [Request.run source], request.IsText) ∧ .value (.ok v) ∈ replies ∧
      v.nesting ≤ 128 ∧ v.text? = some text ∧
      (Reader.readOne {} (String.ofList text) = .ok v ↔ v.Respellable) ∧ v.Respellable := by
  intro source replies v text
  have htexts : ∀ request ∈ [Request.run source], request.IsText :=
    fun request hrequest => List.mem_singleton.mp hrequest ▸ trivial
  have hmem : .value (.ok v) ∈ replies := mem_replies_run (by decide +kernel)
  have hnesting : v.nesting ≤ 128 := by decide
  have htext : v.text? = some text := by decide
  have hspell : v.Respellable := by
    refine ⟨by decide, fun items hitems => ?_, fun d hd => ?_⟩
    · obtain rfl : items = _ := by simpa [v] using hitems
      simp [IsLoneComparison]
    · obtain rfl : d = ⟨25, 1⟩ := by simpa [v] using hd
      decide
  have hread := results_read_back_iff {} {} htexts _ hmem hnesting text htext
  exact ⟨htexts, hmem, hnesting, htext, hread, hspell⟩

/-- **Not every result is read back from its text**: there is no notation for a pair. -/
theorem pair_not_read_back :
    ¬ ∀ (texts : List String), ∀ reply ∈ ((start (.fresh {} {})).handleAll (texts.map .run)).1,
      ∀ v, reply = .value (.ok v) → v.nesting ≤ 128 → ∀ text, v.text? = some text →
        Reader.readOne {} (String.ofList text) = .ok v := by
  intro hall
  have hmem : .value (.ok (.list [.number (.integer 1), .dot, .number (.integer 2)]))
      ∈ ((start (.fresh {} {})).handleAll [.run "(cons 1 2)"]).1 :=
    mem_replies_run (by decide +kernel)
  have hread := hall ["(cons 1 2)"] _ hmem _ rfl (by decide) "(1 . 2)".toList (by decide)
  have hfails : (Reader.readOne {} (String.ofList "(1 . 2)".toList)).toOption = none := by
    decide +kernel
  rw [hread] at hfails
  cases hfails

/-! The other results without a notation come up in sessions too: a list of nothing but a comparison,
and a product of two literals that has no literal itself. -/

example : ((Interpreter.fresh {} {}).run "(list (quote <))").1.toOption
    = some (.list [.symbol "<"]) := by decide +kernel

example : ((Interpreter.fresh {} {}).run "(* 10.0 1.0e4096)").1.toOption
    = some (.number (.decimal ⟨1, -4097⟩)) := by decide +kernel

end Session

end SmallScheme
