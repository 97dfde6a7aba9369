import SmallScheme.Prompt.Command

/-!
# What a line asks for

`Command.Asks s command` says which command a line is, once its backspaces have taken effect and the
blanks around it are gone. The commands without an argument are fixed texts. `:load` is a command
when it stands alone or a blank follows it, and the path is what follows without the blanks around
it. A line that is none of these is an expression. `ofTyped?_eq_some_iff` shows that the prompt sorts
its lines in this way.
-/

namespace SmallScheme

namespace Command

variable {s rest path : List Char} {command : Command}

/-- What a line asks for that has no blanks around it. -/
inductive Asks : List Char → Command → Prop where
  | blank : Asks [] .blank
  | help : Asks ":help".toList .help
  | environment : Asks ":env".toList .environment
  | quit {s : List Char} (h : s ∈ [":quit".toList, ":exit".toList, "quit".toList]) : Asks s .quit
  | load {rest : List Char} (h : ∀ c, rest.head? = some c → Text.isBlank c = true) :
      Asks (":load".toList ++ rest) (.load (String.ofList (Text.trim rest)))
  | expression {s : List Char} (hne : s ≠ [])
      (hfixed : s ∉ [":help".toList, ":env".toList, ":quit".toList, ":exit".toList, "quit".toList])
      (hload : ∀ rest, s = ":load".toList ++ rest →
        ∃ c, rest.head? = some c ∧ Text.isBlank c = false) :
      Asks s (.expression (String.ofList s))

theorem after?_eq_some_iff {lead : List Char} : after? lead s = some rest ↔ s = lead ++ rest := by
  fun_induction after? lead s with
  | case1 rest' => simp [eq_comm]
  | case2 b lead rest' ih => simpa using ih
  | case3 a lead b rest' hne => simp [Ne.symm hne]
  | case4 a lead => simp

theorem loadPath?_eq_some_iff :
    loadPath? s = some path ↔ ∃ rest, s = ":load".toList ++ rest
      ∧ (∀ c, rest.head? = some c → Text.isBlank c = true) ∧ path = Text.trim rest := by
  simp only [loadPath?]
  split
  · rename_i rest hafter
    obtain rfl := after?_eq_some_iff.mp hafter
    simp only [Option.all_eq_true, Option.ite_none_right_eq_some, Option.some.injEq,
      List.append_cancel_left_eq, exists_eq_left']
    exact and_congr_right fun _ => eq_comm
  · rename_i hafter
    refine ⟨fun h => (Option.some_ne_none _ h.symm).elim, ?_⟩
    rintro ⟨rest, hs, -⟩
    cases (after?_eq_some_iff.mpr hs).symm.trans hafter

theorem ofList_eq_iff {t : String} : String.ofList s = t ↔ s = t.toList :=
  ⟨fun h => by simp [← h], fun h => by simp [h]⟩

theorem asks_ofLine (line : List Char) : Asks (Text.trim line) (ofLine line) := by
  simp only [ofLine, ofList_eq_iff, List.mem_cons, List.not_mem_nil, or_false]
  generalize Text.trim line = s
  split
  · rename_i hempty
    exact hempty ▸ .blank
  rename_i hne
  split
  · rename_i hhelp
    exact hhelp ▸ .help
  rename_i hhelp
  split
  · rename_i henvironment
    exact henvironment ▸ .environment
  rename_i henvironment
  split
  · rename_i hquit
    exact .quit (by simpa only [List.mem_cons, List.not_mem_nil, or_false] using hquit)
  rename_i hquit
  split
  · rename_i path hpath
    obtain ⟨rest, rfl, hblank, rfl⟩ := loadPath?_eq_some_iff.mp hpath
    exact .load hblank
  · rename_i hpath
    refine .expression hne ?_ fun rest hs => ?_
    · simp only [List.mem_cons, List.not_mem_nil, or_false, not_or]
      exact ⟨hhelp, henvironment, not_or.mp hquit |>.imp_right not_or.mp⟩
    · refine Classical.byContradiction fun hnone => ?_
      simp only [not_exists, not_and, Bool.not_eq_false] at hnone
      cases (loadPath?_eq_some_iff.mpr ⟨rest, hs, hnone, rfl⟩).symm.trans hpath

theorem ofLine_of_asks {line : List Char} (h : Asks (Text.trim line) command) :
    ofLine line = command := by
  simp only [ofLine, ofList_eq_iff, List.mem_cons, List.not_mem_nil, or_false]
  generalize Text.trim line = s at h
  cases h with
  | blank => rfl
  | help => rfl
  | environment => rfl
  | quit h =>
      simp only [List.mem_cons, List.not_mem_nil, or_false] at h
      rcases h with rfl | rfl | rfl
      all_goals rfl
  | @load rest hblank =>
      rw [loadPath?_eq_some_iff.mpr ⟨rest, rfl, hblank, rfl⟩]
      simp
  | @expression s hne hfixed hload =>
      have hpath : loadPath? s = none := by
        rw [Option.eq_none_iff_forall_ne_some]
        intro path hsome
        obtain ⟨rest, hs, hblank, -⟩ := loadPath?_eq_some_iff.mp hsome
        obtain ⟨c, hc, hnot⟩ := hload rest hs
        simp [hblank c hc] at hnot
      simp only [List.mem_cons, List.not_mem_nil, or_false, not_or] at hfixed
      obtain ⟨hhelp, henvironment, hquit⟩ := hfixed
      rw [if_neg hne, if_neg hhelp, if_neg henvironment, hpath,
        if_neg (not_or.mpr (hquit.imp_right not_or.mpr))]

/-- The prompt sorts its lines as they ask. -/
theorem ofTyped?_eq_some_iff {line : List Char} :
    ofTyped? line = some command ↔
      ∃ typed, Typing.typed? line = some typed ∧ Asks (Text.trim typed) command := by
  rw [ofTyped?, Option.map_eq_some_iff]
  refine exists_congr fun typed => and_congr_right fun _ => ⟨fun h => ?_, ofLine_of_asks⟩
  exact h ▸ asks_ofLine typed

end Command

end SmallScheme
