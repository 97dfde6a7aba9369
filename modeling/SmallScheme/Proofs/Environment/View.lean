import SmallScheme.Proofs.Environment.Binding
import SmallScheme.Proofs.Table

/-!
# What an environment shows

What a name means in an environment is decided by the global bindings and by the bindings of the
innermost call. Two environments that agree on these show the same (`Environment.SameView`), however
they differ in the calls below, in the model of calls, and in the limit of depth. Binding a global
name in both keeps them so.
-/

namespace SmallScheme

/-! ## Environments that show the same -/

namespace Environment

/-- Two environments in which every name means the same. -/
structure SameView (s t : Environment) : Prop where
  values : s.values = t.values
  functions : s.functions = t.functions
  current : s.calls.current = t.calls.current

namespace SameView

variable {s t : Environment} (h : s.SameView t)
include h

theorem lookup (name : String) : s.lookup name = t.lookup name := by
  simp only [Environment.lookup, Calls.lookup?, h.values, h.functions, h.current]

theorem resolve (name : String) : s.resolve name = t.resolve name := by
  simp only [Environment.resolve, Calls.lookup?, h.functions, h.current]

theorem isDefined (name : String) : s.isDefined name = t.isDefined name := by
  simp only [Environment.isDefined, h.values, h.functions]

theorem bind {name : String} {v : Value} {bound bound' : Environment}
    (hs : s.bind name v = .ok bound) (ht : t.bind name v = .ok bound') : bound.SameView bound' := by
  have hcurrent : bound.calls.current = bound'.calls.current := by
    rw [calls_bind hs, calls_bind ht, h.current]
  rcases bind_both hs ht with ⟨f, -, rfl, rfl⟩ | ⟨-, rfl, rfl⟩
  · exact ⟨by rw [h.values], by rw [h.functions], hcurrent⟩
  · exact ⟨by rw [h.values], by rw [h.functions], hcurrent⟩

end SameView

end Environment

end SmallScheme
