import SmallScheme.Proofs.Environment.View
import SmallScheme.Proofs.Evaluation.Simulation

/-!
# Only the innermost frame is seen

In the model of frames a body is evaluated above the frames of all calls that are under way, and
sees the bindings of its own call and the global ones. Two environments that differ in nothing but
the frames below the innermost one (`Environment.SameTop`) are therefore the same to every
evaluation: it has the same result in both, and leaves environments that differ in nothing but the
same frames (`Evaluation.frames_below_unseen`).

The proof runs the evaluator above both stacks side by side. A call puts the same frame on both, and
its end takes it off again, so the context of the comparison is the pair of stacks.
-/

namespace SmallScheme

namespace Environment

/-- Environments in the model of frames, with these stacks, which agree on the innermost frame and
on everything that is no frame. -/
structure SameTop (stack stack' : List (Table Value)) (s t : Environment) : Prop where
  values : s.values = t.values
  functions : s.functions = t.functions
  config : s.config = t.config
  left : s.calls = .frames stack
  right : t.calls = .frames stack'
  innermost : stack.head? = stack'.head?

namespace SameTop

variable {stack stack' : List (Table Value)} {s t : Environment} (h : SameTop stack stack' s t)
include h

theorem sameView : s.SameView t := by
  refine ⟨h.values, h.functions, ?_⟩
  rw [h.left, h.right]
  exact h.innermost

theorem maxDepth : s.maxDepth = t.maxDepth :=
  congrArg Config.maxDepth h.config

theorem bind {name : String} {v : Value} {bound bound' : Environment}
    (hs : s.bind name v = .ok bound) (ht : t.bind name v = .ok bound') :
    SameTop stack stack' bound bound' := by
  have hview := h.sameView.bind hs ht
  have hconfig : bound.config = bound'.config := by
    rw [config_bind hs, config_bind ht, h.config]
  refine ⟨hview.values, hview.functions, hconfig, ?_, ?_, h.innermost⟩
  · rw [calls_bind hs, h.left]
  · rw [calls_bind ht, h.right]

theorem enter (key : String) (bindings : List (String × Option Value)) :
    ∃ frame, SameTop (frame :: stack) (frame :: stack') (s.enter key bindings)
      (t.enter key bindings) := by
  refine ⟨Table.empty.insertAll (bindings.filterMap fun b => b.2.map (b.1, ·)), ?_⟩
  refine ⟨h.values, h.functions, ?_, ?_, ?_, rfl⟩
  · simp [Environment.config, Environment.enter, Calls.enter, Calls.model, h.left, h.right,
      h.maxDepth]
  · rw [Environment.enter, h.left, Calls.enter]
  · rw [Environment.enter, h.right, Calls.enter]

end SameTop

/-- The end of a call takes the frame off again that its beginning put on both stacks. -/
theorem SameTop.leave {frame : Table Value} {stack stack' : List (Table Value)}
    {s t : Environment} (h : SameTop (frame :: stack) (frame :: stack') s t)
    (hinnermost : stack.head? = stack'.head?) : SameTop stack stack' s.leave t.leave := by
  refine ⟨h.values, h.functions, ?_, ?_, ?_, hinnermost⟩
  · simp [Environment.config, Environment.leave, Calls.leave, Calls.model, h.left, h.right,
      h.maxDepth]
  · rw [Environment.leave, h.left, Calls.leave, List.tail_cons]
  · rw [Environment.leave, h.right, Calls.leave, List.tail_cons]

end Environment

/-- A run beside one above another stack of frames. -/
def Comparison.aboveFrames : Comparison where
  Context := List String × List (Table Value) × List (Table Value)
  running := Prod.fst
  Related i _ s t := s.SameTop i.2.1 i.2.2 t
  limit hrel := .inr (by rw [hrel.maxDepth])
  lookup hrel _ := ⟨hrel.sameView.lookup _, fun _ _ => trivial⟩
  resolve hrel _ := ⟨hrel.sameView.resolve _, fun _ _ => trivial⟩
  isDefined hrel _ := hrel.sameView.isDefined _
  define hrel _ _ _ _ _ hs ht := hrel.bind hs ht
  assign _ _ hrel _ _ _ _ hs ht := hrel.bind hs ht
  apply hrel _ := hrel
  operand hrel _ _ _ := by rw [hrel.left, hrel.right, Calls.model, Calls.model]
  enter := by
    rintro ⟨running, stack, stack'⟩ _ s t key f operands bindings hrel _ _ _ _
    obtain ⟨frame, hinside⟩ := hrel.enter key bindings
    refine ⟨(key :: running, frame :: stack, frame :: stack'), rfl, hinside, ?_⟩
    intro _ s' t' hbody
    exact hbody.leave hrel.innermost

namespace Evaluation

/-- **An evaluation sees no frame but the innermost one**: in two environments in the model of
frames that differ in nothing but the frames below it, every expression has the same result at every
depth. The environments that are left agree on all variables and functions, and differ in nothing
but the same frames. -/
theorem frames_below_unseen {stack stack' : List (Table Value)} {s t : Environment}
    (h : s.SameTop stack stack' t) (depth : Nat) (e : Value) :
    let left := (evaluateAt depth e).outcome s
    let right := (evaluateAt depth e).outcome t
    left.1 = right.1 ∧ left.2.SameTop stack stack' right.2 := by
  intro left right
  have hagree := Comparison.agree_evaluateAt (c := .aboveFrames) (i := ([], stack, stack')) depth
    (e := e) rfl h h.maxDepth.symm trivial fun _ _ => trivial
  exact ⟨hagree.result_eq (fun _ => id) (fun _ _ => id), hagree.related fun _ => id⟩

/-- A parameter of an outer call is undefined in the body of an inner one, which assigns a variable
first. -/
theorem frames_below_unseen_outer_parameter :
    let inner : Table Value := Table.empty.insert "x" (.bool true)
    let outer : Table Value := Table.empty.insert "y" (.bool false)
    let s : Environment := { Environment.fresh {} with
      values := Table.empty.insert "z" .nil
      calls := .frames [inner] }
    let t : Environment := { s with calls := .frames [inner, outer] }
    let e : Value := .list [.symbol "list",
      .list [.symbol "set!", .symbol "z", .symbol "x"], .symbol "y"]
    let left := (evaluateAt 0 e).outcome s
    let right := (evaluateAt 0 e).outcome t
    s.SameTop [inner] [inner, outer] t ∧ left.1 = .error (.undefinedName "y") ∧
      left.1 = right.1 ∧ left.2.SameTop [inner] [inner, outer] right.2 := by
  intro inner outer s t e left right
  have hsame : s.SameTop [inner] [inner, outer] t := ⟨rfl, rfl, rfl, rfl, rfl, rfl⟩
  exact ⟨hsame, by decide, frames_below_unseen hsame 0 e⟩

end Evaluation

end SmallScheme
