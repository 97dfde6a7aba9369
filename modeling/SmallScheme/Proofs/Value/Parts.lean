import SmallScheme.Value.Basic

/-!
# The parts of a value

A value is a part of itself, and the parts of the elements of a list are parts of the list. What is
said of "every symbol in a value" or "every list in a value" is said of its parts. The facts that
proofs use are `mem_parts_list`, which goes one level down, `of_mem_parts`, which goes down all the
way, and `induction_on`, the induction on values in which a list comes with the hypothesis for each
of its elements.
-/

namespace SmallScheme

namespace Value

/-- Induction on values, through all elements of a list at once. -/
theorem induction_on {P : Value → Prop} (v : Value) (bool : ∀ b, P (.bool b))
    (number : ∀ n, P (.number n)) (symbol : ∀ name, P (.symbol name))
    (list : ∀ items, (∀ v ∈ items, P v) → P (.list items)) : P v :=
  Value.rec (motive_2 := fun items => ∀ v ∈ items, P v) bool number symbol list
    (fun _ hv => absurd hv List.not_mem_nil)
    (fun _ _ hhead htail _ hv => (List.mem_cons.mp hv).elim (fun h => h ▸ hhead) (htail _)) v

mutual

/-- The value itself and, of a list, the parts of its elements. -/
def parts : Value → List Value
  | .list items => .list items :: partsAll items
  | v => [v]

/-- The parts of some values. -/
def partsAll : List Value → List Value
  | [] => []
  | v :: rest => v.parts ++ partsAll rest

end

theorem mem_partsAll {u : Value} {vs : List Value} :
    u ∈ partsAll vs ↔ ∃ v ∈ vs, u ∈ v.parts := by
  induction vs with
  | nil => simp [partsAll]
  | cons v vs ih => simp [partsAll, ih]

@[simp] theorem parts_bool (b : Bool) : (bool b).parts = [bool b] := by simp [parts]

@[simp] theorem parts_number (n : Number) : (number n).parts = [number n] := by simp [parts]

@[simp] theorem parts_symbol (name : String) : (symbol name).parts = [symbol name] := by simp [parts]

@[simp] theorem mem_parts_list {u : Value} {items : List Value} :
    u ∈ (list items).parts ↔ u = .list items ∨ ∃ v ∈ items, u ∈ v.parts := by
  rw [parts, List.mem_cons, mem_partsAll]

theorem mem_parts_self (v : Value) : v ∈ v.parts := by
  cases v <;> simp

/-- What passes from lists to their elements passes to all parts. -/
theorem of_mem_parts {p : Value → Prop} (hlist : ∀ items, p (.list items) → ∀ v ∈ items, p v)
    {u v : Value} (hv : p v) (hu : u ∈ v.parts) : p u := by
  induction v using induction_on with
  | bool b | number n | symbol name =>
    obtain rfl : u = _ := by simpa using hu
    exact hv
  | list items ih =>
    rcases mem_parts_list.mp hu with rfl | ⟨w, hw, hpart⟩
    · exact hv
    · exact ih w hw (hlist items hv w hw) hpart

theorem nestingAll_le_iff {depth : Nat} {vs : List Value} :
    nestingAll vs ≤ depth ↔ ∀ v ∈ vs, v.nesting ≤ depth := by
  induction vs with
  | nil => simp [nestingAll]
  | cons v vs ih => rw [nestingAll, Nat.max_le, ih, List.forall_mem_cons]

@[simp] theorem nesting_list (items : List Value) :
    (list items).nesting = nestingAll items + 1 := by rw [nesting]

/-- All numbers in the value are of some kind. -/
def Numbers (good : Number → Prop) (v : Value) : Prop :=
  ∀ n, .number n ∈ v.parts → good n

@[simp] theorem numbers_number {good : Number → Prop} {n : Number} :
    (number n).Numbers good ↔ good n := by
  simp [Numbers]

theorem numbers_list {good : Number → Prop} {items : List Value} :
    (list items).Numbers good ↔ ∀ v ∈ items, v.Numbers good := by
  simp only [Numbers, mem_parts_list, reduceCtorEq, false_or]
  constructor
  · intro h v hv n hn
    exact h n ⟨v, hv, hn⟩
  · rintro h n ⟨v, hv, hn⟩
    exact h v hv n hn

theorem Numbers.imp {p q : Number → Prop} {v : Value} (h : v.Numbers p) (himp : ∀ n, p n → q n) :
    v.Numbers q :=
  fun n hn => himp n (h n hn)

/-- Every number in the value is in normal form. -/
def IsNormal (v : Value) : Prop :=
  ∀ n, .number n ∈ v.parts → n.IsNormal

theorem IsNormal.element {items : List Value} (h : IsNormal (.list items)) {v : Value}
    (hv : v ∈ items) : v.IsNormal :=
  fun n hn => h n (mem_parts_list.mpr (.inr ⟨v, hv, hn⟩))

end Value

end SmallScheme
