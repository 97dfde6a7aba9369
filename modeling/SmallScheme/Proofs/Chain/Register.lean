import SmallScheme.Chain.Register
import SmallScheme.Proofs.Chain.Content
import SmallScheme.Proofs.Table

/-!
# Registers hold sequences

The same programs can be run with plain lists in the registers, each of them apart from the others.
A run with chains cannot be told from one with lists, although chains share cells, carry their
lengths, and give up the cells that nobody needs.

* `Registers.Represents`: the chain in each register denotes the list in it, and the links that the
  cells count are those of the registers and of the cells.
* `Registers.represents_execute`, `Registers.represents_executeAll`: every instruction, and so every
  program, is defined, answers as with lists, and preserves this.
* `Registers.chains_read_as_sequences`: hence whatever a program has done, every register reads as
  its list, the length carried is the number of cells, and no instruction touches a register other
  than its own.
-/

namespace SmallScheme

/-- The register that an instruction changes. -/
def Registers.Instruction.target? {α : Type} : Instruction α → Option String
  | .store register _ => some register
  | .drop register => some register
  | .ask _ => none

/-! ## Plain sequences -/

/-- Lists by the names of their registers. A register that holds nothing reads as the empty one. -/
abbrev Sequences (α : Type) := Table (List α)

namespace Sequences

open Registers

variable {α : Type}

def build (s : Sequences α) : Source α → List α
  | .nil => []
  | .singleton value => [value]
  | .items values => values
  | .prepend register value => value :: s.getD register []
  | .append register value => s.getD register [] ++ [value]
  | .tail register => (s.getD register []).tail
  | .copy register => s.getD register []
  | .map register f => (s.getD register []).map f

variable [BEq α] [ToString α]

def answer (s : Sequences α) : Question → Answer α
  | .head register => .element (s.getD register []).head?
  | .get register index => .element (s.getD register [])[index]?
  | .length register => .length (s.getD register []).length (s.getD register []).isEmpty
  | .fold register => .folded ((s.getD register []).foldl foldedText "nil")
  | .toList register => .elements (s.getD register [])
  | .iterate register => .iterated (s.getD register []).length (steps (s.getD register []))
  | .equal register other => .equal (s.getD register [] == s.getD other [])
  | .text register => .texts (spacedText (s.getD register [])) (listedText (s.getD register []))

def execute (s : Sequences α) : Instruction α → Answer α × Sequences α
  | .store register source =>
    let items := s.build source
    (.stored items.length items.head? items, s.insert register items)
  | .drop register => (.dropped (s.contains register), s.erase register)
  | .ask question => (s.answer question, s)

def executeAll (s : Sequences α) : List (Instruction α) → List (Answer α) × Sequences α
  | [] => ([], s)
  | instruction :: rest =>
    let (first, next) := s.execute instruction
    let (later, last) := next.executeAll rest
    (first :: later, last)

theorem getD_execute_of_ne (s : Sequences α) {instruction : Instruction α} {register : String}
    (h : instruction.target? ≠ some register) :
    (s.execute instruction).2.getD register [] = s.getD register [] := by
  cases instruction with
  | store other source =>
    exact Table.getD_insert_of_ne s (fun heq => h (congrArg some heq.symm)) _ []
  | drop other => exact Table.getD_erase_of_ne s (fun heq => h (congrArg some heq.symm)) []
  | ask question => rfl

end Sequences

namespace Registers

variable {α : Type} {m : Memory α} {chains : Table Chain}

/-! ## The links of registers -/

/-- The links that the chains in the registers are. -/
def links (chains : Table Chain) : List Link :=
  chains.entries.map fun e => e.2.first

theorem count_links (chains : Table Chain) (register : String) (address : Nat) :
    (links chains).count (some address)
      = ((chains.getD register .nil).first :: links (chains.erase register)).count
        (some address) := by
  rw [links, ((chains.perm_erase register).map _).count_eq, List.map_append, List.count_append,
    Table.getD, List.count_cons, links, Nat.add_comm]
  cases chains.get? register with
  | none => rfl
  | some c => simp [List.count_singleton]

theorem count_links_insert (chains : Table Chain) (register : String) (c : Chain) (address : Nat) :
    (links (chains.insert register c)).count (some address)
      = (c.first :: links (chains.erase register)).count (some address) := by
  rw [count_links _ register, Table.getD_insert_self, Table.erase_insert_self]

/-- What the links of registers lead to is what their chains denote. -/
theorem denotes_of_keeps {after : Memory α} {roots : List Link} {register : String} {xs : List α}
    (h : (chains.getD register .nil).Denotes m xs) (hkeeps : m.Keeps roots after)
    (hroots : links chains ⊆ roots) : (chains.getD register .nil).Denotes after xs := by
  refine ⟨?_, h.length_eq⟩
  cases hget : chains.get? register with
  | none =>
    have hfirst : (chains.getD register .nil).first = none := by simp [Table.getD, hget, Chain.nil]
    have hxs := h.held
    rw [hfirst] at hxs ⊢
    cases hxs
    exact .nil
  | some c =>
    have hchain : chains.getD register .nil = c := by simp [Table.getD, hget]
    have hmem : c.first ∈ links chains :=
      List.mem_map.mpr ⟨(register, c), Table.mem_toList_iff.mpr hget, rfl⟩
    rw [hchain] at h ⊢
    exact hkeeps c.first (hroots hmem) xs h.held

/-- **The chain in a register may be given up**, for the other registers keep their cells. -/
theorem yields_giveUp (roots : List Link) {register : String} {xs : List α}
    (hsound : m.Sound (roots ++ links chains)) (h : (chains.getD register .nil).Denotes m xs) :
    (chains.getD register .nil).release.Yields m fun _ after =>
      after.Sound (roots ++ links (chains.erase register)) ∧ m.Keeps roots after ∧
        ∀ other ys, other ≠ register → (chains.getD other .nil).Denotes m ys →
          (chains.getD other .nil).Denotes after ys := by
  have hcount : m.Sound ((chains.getD register .nil).first ::
      (roots ++ links (chains.erase register))) :=
    hsound.of_count fun address => by
      rw [List.count_append, count_links chains register, ← List.count_append]
      exact List.perm_middle.symm.count_eq _
  refine (Chain.yields_release hcount h).imp fun _ after ⟨hafter, hkeeps⟩ => ⟨hafter, ?_, ?_⟩
  · exact fun link hlink => hkeeps link (List.mem_append_left _ hlink)
  · intro other ys hother hys
    rw [← Table.getD_erase_of_ne chains hother] at hys ⊢
    exact denotes_of_keeps hys hkeeps (List.subset_append_right _ _)

/-! ## Registers that hold lists -/

/-- The chain in every register denotes the list in it, and the cells count the links of registers
and cells. -/
structure Represents (r : Registers α) (s : Sequences α) : Prop where
  sound : r.memory.Sound (links r.chains)
  denotes : ∀ register, (r.chains.getD register .nil).Denotes r.memory (s.getD register [])
  contains : ∀ register, r.chains.contains register = s.contains register

theorem represents_empty : (empty : Registers α).Represents .empty where
  sound := Memory.sound_empty
  denotes _ := Chain.denotes_nil
  contains _ := rfl

/-- The memory has the cells that the chains in the registers reach, and no others. -/
theorem Represents.cell?_isSome_iff {r : Registers α} {s : Sequences α} (h : r.Represents s)
    (address : Nat) :
    (r.memory.cell? address).isSome ↔
      ∃ register, r.memory.Reaches (r.chains.getD register .nil).first address := by
  rw [Option.isSome_iff_exists]
  constructor
  · rintro ⟨cell, hcell⟩
    obtain ⟨link, hlink, hreaches⟩ := h.sound.exists_root hcell
    obtain ⟨⟨register, c⟩, hentry, rfl⟩ := List.mem_map.mp hlink
    have hget : r.chains.get? register = some c := Table.mem_toList_iff.mp hentry
    refine ⟨register, ?_⟩
    simpa [Table.getD, hget] using hreaches
  · rintro ⟨register, hreaches⟩
    exact hreaches.exists_cell

/-! ## One instruction -/

section

variable {s : Sequences α}

theorem yields_build (hsound : m.Sound (links chains))
    (h : ∀ register, (chains.getD register .nil).Denotes m (s.getD register []))
    (source : Source α) :
    (build chains source).Yields m (Chain.Made m (links chains) (s.build source)) := by
  cases source with
  | nil => exact Chain.yields_nil hsound
  | singleton value => exact Chain.yields_singleton hsound value
  | items values => exact Chain.yields_ofList hsound values
  | prepend register value => exact Chain.yields_prepend hsound (h register) value
  | append register value => exact Chain.yields_append hsound (h register) value
  | tail register => exact Chain.yields_tail hsound (h register)
  | copy register => exact Chain.yields_copy hsound (h register)
  | map register f => exact Chain.yields_map hsound (h register) f

theorem answer_eq [BEq α] [ToString α]
    (h : ∀ register, (chains.getD register .nil).Denotes m (s.getD register []))
    (question : Question) : answer chains m question = some (s.answer question) := by
  cases question with
  | head register => simp [answer, Sequences.answer, (h register).head?]
  | get register index => simp [answer, Sequences.answer, Chain.get?, (h register).cursor.get?]
  | length register =>
    simp [answer, Sequences.answer, (h register).length_eq, (h register).isEmpty]
  | fold register => simp [answer, Sequences.answer, (h register).fold]
  | toList register => simp [answer, Sequences.answer, (h register).toList]
  | iterate register =>
    simp [answer, Sequences.answer, (h register).length_eq, (h register).iterate]
  | equal register other => simp [answer, Sequences.answer, (h register).beq (h other)]
  | text register => simp [answer, Sequences.answer, (h register).toList]

variable [BEq α] [ToString α]

/-- **An instruction** is defined, answers as with lists, and leaves the chains in the others. -/
theorem represents_execute {r : Registers α} (h : r.Represents s) (instruction : Instruction α) :
    ∃ next, r.execute instruction = some ((s.execute instruction).1, next) ∧
      next.Represents (s.execute instruction).2 ∧
      ∀ register, instruction.target? ≠ some register →
        next.chains.getD register .nil = r.chains.getD register .nil := by
  obtain ⟨chains, m⟩ := r
  obtain ⟨hsound, hdenotes, hcontains⟩ := h
  cases instruction with
  | store register source =>
    -- Until the former chain is given up, the new one is a root beside those of the registers.
    obtain ⟨c, between, hbuild, hmade⟩ := yields_build hsound hdenotes source
    have hbetween other := denotes_of_keeps (hdenotes other) hmade.keeps (List.Subset.refl _)
    obtain ⟨_, after, hrelease, hafter, hkeeps, hothers⟩ :=
      yields_giveUp [c.first] hmade.sound (hbetween register)
    have hc : c.Denotes after (s.build source) :=
      ⟨hkeeps c.first List.mem_cons_self _ hmade.denotes.held, hmade.denotes.length_eq⟩
    refine ⟨⟨chains.insert register c, after⟩, ?_, ⟨?_, fun other => ?_, fun other => ?_⟩, ?_⟩
    · simp [execute, hbuild, hrelease, hc.head?, hc.toList, hc.length_eq, Sequences.execute]
    · exact hafter.of_count (count_links_insert chains register c)
    · by_cases hother : other = register
      · subst hother
        simpa [Sequences.execute] using hc
      · simp only [Sequences.execute, Table.getD_insert_of_ne _ hother]
        exact hothers other _ hother (hbetween other)
    · simp only [Sequences.execute, Table.contains_insert, hcontains]
    · intro other hother
      exact Table.getD_insert_of_ne chains (fun heq => hother (congrArg some heq.symm)) c .nil
  | drop register =>
    obtain ⟨_, after, hrelease, hafter, _, hothers⟩ :=
      yields_giveUp [] hsound (hdenotes register)
    refine ⟨⟨chains.erase register, after⟩, ?_, ⟨hafter, fun other => ?_, fun other => ?_⟩, ?_⟩
    · simp [execute, hrelease, hcontains, Sequences.execute]
    · by_cases hother : other = register
      · subst hother
        simpa [Sequences.execute] using Chain.denotes_nil
      · simp only [Sequences.execute, Table.getD_erase_of_ne _ hother]
        exact hothers other _ hother (hdenotes other)
    · simp only [Sequences.execute, Table.contains_erase, hcontains]
    · intro other hother
      exact Table.getD_erase_of_ne chains (fun heq => hother (congrArg some heq.symm)) .nil
  | ask question =>
    refine ⟨⟨chains, m⟩, ?_, ⟨hsound, hdenotes, hcontains⟩, fun _ _ => rfl⟩
    simp [execute, answer_eq hdenotes, Sequences.execute]

/-! ## Programs -/

/-- **A program** is defined, and answers as with lists. -/
theorem represents_executeAll {r : Registers α} (h : r.Represents s)
    (program : List (Instruction α)) :
    ∃ last, r.executeAll program = some ((s.executeAll program).1, last) ∧
      last.Represents (s.executeAll program).2 := by
  induction program generalizing r s with
  | nil => exact ⟨r, rfl, h⟩
  | cons instruction rest ih =>
    obtain ⟨next, hfirst, hnext, _⟩ := represents_execute h instruction
    obtain ⟨last, hrest, hlast⟩ := ih hnext
    exact ⟨last, by simp [executeAll, Sequences.executeAll, hfirst, hrest], hlast⟩

/-- **Chains in registers are sequences**: for every program and with every kind of elements, a run
with chains is defined, so that no link leads astray and no number falls below zero, and has the
answers of a run with lists. Afterwards the length that the chain in a register carries is the
number of its cells, and whatever is asked of it has the answer that the list in the register
gives. No further instruction changes what another register holds, and no cell is kept that no
register reaches. -/
theorem chains_read_as_sequences (program : List (Instruction α)) :
    ∃ answers r s, empty.executeAll program = some (answers, r) ∧
      Sequences.executeAll .empty program = (answers, s) ∧
      (∀ register, (r.chains.getD register .nil).ReadsAs r.memory (s.getD register [])) ∧
      (∀ register other, (r.chains.getD register .nil).beq (r.chains.getD other .nil) r.memory
        = some (s.getD register [] == s.getD other [])) ∧
      (∀ instruction, ∃ next, r.execute instruction = some ((s.execute instruction).1, next) ∧
        ∀ register, instruction.target? ≠ some register →
          next.chains.getD register .nil = r.chains.getD register .nil ∧
            (next.chains.getD register .nil).ReadsAs next.memory (s.getD register [])) ∧
      ∀ address, (r.memory.cell? address).isSome ↔
        ∃ register, r.memory.Reaches (r.chains.getD register .nil).first address := by
  obtain ⟨r, hrun, hr⟩ := represents_executeAll represents_empty program
  refine ⟨_, r, _, hrun, rfl, fun register => (hr.denotes register).readsAs,
    fun register other => (hr.denotes register).beq (hr.denotes other), fun instruction => ?_,
    hr.cell?_isSome_iff⟩
  obtain ⟨next, hnext, hrepresents, hothers⟩ := represents_execute hr instruction
  refine ⟨next, hnext, fun register hregister => ⟨hothers register hregister, ?_⟩⟩
  have hkept := (hrepresents.denotes register).readsAs
  rwa [Sequences.getD_execute_of_ne _ hregister] at hkept

end

/-- The cells of a list are kept for the register that shares them when another is emptied. -/
theorem chains_read_as_sequences_shared :
    ∃ r next : Registers Int,
      empty.executeAll [.store "a" (.items [1, 2]), .store "b" (.prepend "a" 0),
          .store "c" (.tail "b"), .ask (.equal "a" "c"), .ask (.iterate "b")]
        = some ([.stored 2 (some 1) [1, 2], .stored 3 (some 0) [0, 1, 2], .stored 2 (some 1) [1, 2],
          .equal true, .iterated 3 [(0, 2), (1, 1), (2, 0)]], r) ∧
      r.execute (.drop "a") = some (.dropped true, next) ∧
      next.chains.getD "b" .nil = r.chains.getD "b" .nil ∧
      (next.chains.getD "b" .nil).ReadsAs next.memory [0, 1, 2] := by
  obtain ⟨answers, r, s, hrun, hlists, -, -, hfurther, -⟩ :=
    chains_read_as_sequences [.store "a" (.items [(1 : Int), 2]), .store "b" (.prepend "a" 0),
      .store "c" (.tail "b"), .ask (.equal "a" "c"), .ask (.iterate "b")]
  obtain ⟨rfl, rfl⟩ := Prod.mk.inj hlists
  obtain ⟨next, hdrop, hothers⟩ := hfurther (.drop "a")
  obtain ⟨hkept, hreads⟩ := hothers "b" (by decide)
  exact ⟨r, next, hrun, hdrop, hkept, hreads⟩

end Registers

end SmallScheme
