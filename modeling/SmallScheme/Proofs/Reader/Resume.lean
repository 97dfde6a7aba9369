import SmallScheme.Proofs.Reader.Grammar

/-!
# Reading from a place on

`resume config p offset t` is what comes of reading a text `t` between items, when `p` has been read
before it. It joins the two layers of reading, the cutting into lexemes and the taking in of
lexemes, into one machine on texts, and the equations below are all that is needed of either layer:
one for each way in which a text can begin. `Beginning` lists these ways, and every text has one
of them (`beginning`), which gives an induction on texts (`induction_on_beginning`).

`Progress.pending` is what has been read at the innermost level. Delivering a value leaves the lists
open that are open (`length_openLists_deliver`), and reading on takes no item back
(`prefix_items_resume`).
-/

namespace SmallScheme

namespace Reader

open Grammar

/-- Reads a text from between two items on. -/
def resume (config : Config) (p : Progress) (offset : Nat) (t : List Char) : Reading :=
  consume config.maxDepth p (Lexeme.scan config.comments .gap offset t)

theorem reading_eq_resume (config : Config) (t : List Char) :
    reading config t = resume config {} 0 t := rfl

variable {config : Config} {p : Progress} {offset : Nat} {t r : List Char}

def stopped (p : Progress) (cause : ReadError.Cause) (offset : Nat) : Reading :=
  ⟨p.reversed.reverse, some ⟨cause, offset⟩⟩

/-! ## One equation for each beginning -/

theorem resume_nil : resume config p offset [] = ⟨p.reversed.reverse, p.finish⟩ := rfl

theorem resume_blank {c : Char} (hc : c ∈ [' ', '\t', '\r', '\n']) :
    resume config p offset (c :: t) = resume config p (offset + c.utf8Size) t := by
  simp [resume, Lexeme.scan, Lexeme.advance, Lexeme.begin, isGap_iff.mpr hc]

theorem resume_opening :
    resume config p offset ('(' :: t)
      = match p.openList config.maxDepth offset with
        | .ok next => resume config next (offset + 1) t
        | .error failure => ⟨p.reversed.reverse, some failure⟩ := by
  have hgap : Text.isGap '(' = false := by decide
  have hsize : ('(' : Char).utf8Size = 1 := by decide
  simp only [resume, Lexeme.scan, Lexeme.advance, Lexeme.begin, hgap, hsize]
  rfl

theorem resume_opening_of_lt (h : p.openLists.length < config.maxDepth) :
    resume config p offset ('(' :: t)
      = resume config { p with openLists := ⟨offset, []⟩ :: p.openLists } (offset + 1) t := by
  have hopen : p.openList config.maxDepth offset
      = .ok { p with openLists := ⟨offset, []⟩ :: p.openLists } := if_neg (by omega)
  rw [resume_opening, hopen]

theorem resume_closing :
    resume config p offset (')' :: t)
      = match p.closeList offset with
        | .ok next => resume config next (offset + 1) t
        | .error failure => ⟨p.reversed.reverse, some failure⟩ := by
  have hgap : Text.isGap ')' = false := by decide
  have hsize : (')' : Char).utf8Size = 1 := by decide
  simp only [resume, Lexeme.scan, Lexeme.advance, Lexeme.begin, hgap, hsize]
  rfl

theorem resume_strayBlank {c : Char} (hblank : Text.isBlank c = true)
    (hgap : c ∉ [' ', '\t', '\r', '\n']) :
    resume config p offset (c :: t) = stopped p (.badCharacter c) offset := by
  have hopen : c ≠ '(' := by rintro rfl; revert hblank; decide
  have hclose : c ≠ ')' := by rintro rfl; revert hblank; decide
  have hgap' : Text.isGap c = false := Bool.eq_false_iff.mpr (mt isGap_iff.mp hgap)
  simp only [resume, Lexeme.scan, Lexeme.advance, Lexeme.begin, hgap', hopen, hclose, hblank]
  rfl

/-! ## Comments -/

theorem scan_comment_append {body : List Char} (hbody : ∀ c ∈ body, c ≠ '\r' ∧ c ≠ '\n') :
    Lexeme.scan config.comments .comment offset (body ++ t)
      = Lexeme.scan config.comments .comment (offset + Text.byteLength body) t := by
  induction body generalizing offset with
  | nil => rfl
  | cons c body ih =>
      obtain ⟨hr, hn⟩ := hbody c (List.mem_cons_self ..)
      simp only [List.cons_append, Lexeme.scan, Lexeme.advance, hr, hn, or_self, if_false,
        List.nil_append, Text.byteLength_cons]
      rw [ih fun d hd => hbody d (List.mem_cons_of_mem _ hd), Nat.add_assoc]

theorem scan_comment_of_lineEnd (hend : LineEnd t) :
    Lexeme.scan config.comments .comment offset t
      = Lexeme.scan config.comments .gap offset t := by
  cases hend with
  | text => rfl
  | lineFeed t => simp [Lexeme.scan, Lexeme.advance, Lexeme.begin, Text.isGap]
  | both t => simp [Lexeme.scan, Lexeme.advance, Lexeme.begin, Text.isGap]

theorem resume_comment {body : List Char} (hon : config.comments = true)
    (hbody : ∀ c ∈ body, c ≠ '\r' ∧ c ≠ '\n') (hend : LineEnd t) :
    resume config p offset (';' :: (body ++ t))
      = resume config p (offset + 1 + Text.byteLength body) t := by
  have hgap : Text.isGap ';' = false := by decide
  have hblank : Text.isBlank ';' = false := by decide
  have hsize : (';' : Char).utf8Size = 1 := by decide
  have hscan : Lexeme.scan config.comments .gap offset (';' :: (body ++ t))
      = Lexeme.scan config.comments .comment (offset + 1) (body ++ t) := by
    simp [Lexeme.scan, Lexeme.advance, Lexeme.begin, hgap, hblank, hsize, hon,
      lineEnds_append hbody hend]
  rw [resume, resume, hscan, scan_comment_append hbody, scan_comment_of_lineEnd hend]

/-! ## Atoms -/

/-- An atom under way goes on to the end of the run. -/
theorem scan_atom {start : Nat} {first : Char} {reversed run : List Char}
    (hrun : ∀ c ∈ run, IsAtomChar c) (hend : EndsAtom t) :
    Lexeme.scan config.comments (.atom start first reversed) offset (run ++ t)
      = ⟨start, .atom first (reversed.reverse ++ run)⟩
        :: Lexeme.scan config.comments .gap (offset + Text.byteLength run) t := by
  induction run generalizing offset reversed with
  | nil =>
      cases t with
      | nil => simp [Lexeme.scan, Lexeme.Mode.finish]
      | cons c t =>
          have hc : Lexeme.isDelimiter c = true := isDelimiter_iff.mpr (hend c rfl)
          simp [Lexeme.scan, Lexeme.advance, Lexeme.Mode.finish, hc]
  | cons c run ih =>
      have hc : Lexeme.isDelimiter c = false :=
        isDelimiter_eq_false_iff.mpr (hrun c (List.mem_cons_self ..))
      simp only [List.cons_append, Lexeme.scan, Lexeme.advance, hc, Bool.false_eq_true, if_false,
        List.nil_append, Text.byteLength_cons]
      rw [ih fun d hd => hrun d (List.mem_cons_of_mem _ hd)]
      simp [Nat.add_assoc]

def CommentStarts (comments : Bool) (c : Char) (t : List Char) : Prop :=
  comments = true ∧ c = ';' ∧ Lexeme.lineEnds t = true

theorem isGap_eq_false_of_isBlank {c : Char} (h : Text.isBlank c = false) :
    Text.isGap c = false :=
  Bool.eq_false_iff.mpr fun hgap => by simp [Text.isBlank_of_isGap hgap] at h

theorem resume_atom {c : Char} {run : List Char} (hatom : Grammar.Atom (c :: run) t)
    (hno : ¬CommentStarts config.comments c (run ++ t)) :
    resume config p offset (c :: run ++ t)
      = match SmallScheme.Atom.value c run with
        | .ok v => resume config (p.deliver offset v) (offset + Text.byteLength (c :: run)) t
        | .error cause => stopped p cause offset := by
  obtain ⟨hblank, hopen, hclose⟩ := hatom.run c (List.mem_cons_self ..)
  have hgap := isGap_eq_false_of_isBlank hblank
  have hbegin : Lexeme.begin config.comments offset c (run ++ t) = (.atom offset c [], []) := by
    simp only [CommentStarts] at hno
    simp only [Lexeme.begin, hgap, hopen, hclose, hblank, Bool.false_eq_true, if_false,
      Bool.and_eq_true, beq_iff_eq, and_assoc, if_neg hno]
  have hscan : Lexeme.scan config.comments (.atom offset c []) (offset + c.utf8Size) (run ++ t)
      = ⟨offset, .atom c ([].reverse ++ run)⟩
        :: Lexeme.scan config.comments .gap (offset + c.utf8Size + Text.byteLength run) t :=
    scan_atom (fun d hd => hatom.run d (List.mem_cons_of_mem _ hd)) hatom.maximal
  simp only [resume, List.cons_append, Lexeme.scan, Lexeme.advance, hbegin, List.nil_append,
    hscan, List.reverse_nil, consume, Progress.feed, Text.byteLength_cons, Nat.add_assoc]
  cases SmallScheme.Atom.value c run <;> rfl

/-! ## Every text has a beginning -/

/-- The ways in which a text can begin between two items. -/
inductive Beginning (comments : Bool) : List Char → Prop where
  | nil : Beginning comments []
  | blank {c : Char} {t : List Char} (hc : c ∈ [' ', '\t', '\r', '\n']) :
      Beginning comments (c :: t)
  | comment {body t : List Char} (hon : comments = true)
      (hbody : ∀ c ∈ body, c ≠ '\r' ∧ c ≠ '\n') (hend : LineEnd t) :
      Beginning comments (';' :: (body ++ t))
  | opening (t : List Char) : Beginning comments ('(' :: t)
  | closing (t : List Char) : Beginning comments (')' :: t)
  | strayBlank {c : Char} (t : List Char) (hblank : Text.isBlank c = true)
      (hgap : c ∉ [' ', '\t', '\r', '\n']) : Beginning comments (c :: t)
  | atom {c : Char} {run t : List Char} (hatom : Grammar.Atom (c :: run) t)
      (hno : ¬CommentStarts comments c (run ++ t)) : Beginning comments (c :: run ++ t)

/-- The longest run of atom characters in front of a text. -/
theorem exists_run (t : List Char) :
    ∃ run r, t = run ++ r ∧ (∀ c ∈ run, IsAtomChar c) ∧ EndsAtom r := by
  induction t with
  | nil => exact ⟨[], [], rfl, by simp, by simp [EndsAtom]⟩
  | cons c t ih =>
      obtain ⟨run, r, rfl, hrun, hend⟩ := ih
      by_cases hc : IsAtomChar c
      · refine ⟨c :: run, r, rfl, fun d hd => ?_, hend⟩
        rcases List.mem_cons.mp hd with rfl | hd
        · exact hc
        · exact hrun d hd
      · refine ⟨[], c :: (run ++ r), rfl, by simp, fun d hd => ?_⟩
        obtain rfl : c = d := Option.some.inj hd
        exact hc

theorem beginning (comments : Bool) (t : List Char) : Beginning comments t := by
  cases t with
  | nil => exact .nil
  | cons c t =>
      by_cases hgap : c ∈ [' ', '\t', '\r', '\n']
      · exact .blank hgap
      by_cases hatom : IsAtomChar c
      · by_cases hcomment : CommentStarts comments c t
        · obtain ⟨hon, rfl, hends⟩ := hcomment
          obtain ⟨body, r, rfl, hbody, hend⟩ := exists_of_lineEnds hends
          exact .comment hon hbody hend
        · obtain ⟨run, r, rfl, hrun, hend⟩ := exists_run t
          refine .atom ⟨List.cons_ne_nil _ _, fun d hd => ?_, hend⟩ hcomment
          rcases List.mem_cons.mp hd with rfl | hd
          · exact hatom
          · exact hrun d hd
      · by_cases hblank : Text.isBlank c = true
        · exact .strayBlank t hblank hgap
        · have hparen : c = '(' ∨ c = ')' := by
            simp only [IsAtomChar, Bool.eq_false_iff.mpr hblank, true_and,
              Classical.not_and_iff_not_or_not, Classical.not_not, ne_eq] at hatom
            exact hatom
          rcases hparen with rfl | rfl
          · exact .opening t
          · exact .closing t

/-- Induction on a text, from each beginning to what stands behind it. -/
theorem induction_on_beginning (comments : Bool) {motive : List Char → Prop} (t : List Char)
    (nil : motive [])
    (blank : ∀ {c t}, c ∈ [' ', '\t', '\r', '\n'] → motive t → motive (c :: t))
    (comment : ∀ {body t}, comments = true → (∀ c ∈ body, c ≠ '\r' ∧ c ≠ '\n') → LineEnd t →
      motive t → motive (';' :: (body ++ t)))
    (opening : ∀ {t}, motive t → motive ('(' :: t))
    (closing : ∀ {t}, motive t → motive (')' :: t))
    (strayBlank : ∀ {c t}, Text.isBlank c = true → c ∉ [' ', '\t', '\r', '\n'] → motive (c :: t))
    (atom : ∀ {c run t}, Grammar.Atom (c :: run) t → ¬CommentStarts comments c (run ++ t) →
      motive t → motive (c :: run ++ t)) : motive t := by
  induction hn : t.length using Nat.strongRecOn generalizing t with
  | ind n ih =>
      subst hn
      cases beginning comments t with
      | nil => exact nil
      | @blank c t hc => exact blank hc (ih t.length (by simp) t rfl)
      | @comment body t hon hbody hend =>
          have hless : t.length < (';' :: (body ++ t)).length := by
            rw [List.length_cons, List.length_append]
            omega
          exact comment hon hbody hend (ih _ hless t rfl)
      | opening t => exact opening (ih t.length (by simp) t rfl)
      | closing t => exact closing (ih t.length (by simp) t rfl)
      | strayBlank t hblank hgap => exact strayBlank hblank hgap
      | @atom c run t hatom hno =>
          have hless : t.length < (c :: run ++ t).length := by
            rw [List.length_append, List.length_cons]
            omega
          exact atom hatom hno (ih _ hless t rfl)

/-! ## What has been read -/

namespace Progress

/-- What has been read at the innermost level, in order. -/
def pending (p : Progress) : List Value :=
  match p.openLists with
  | [] => p.reversed.reverse.map (·.value)
  | inner :: _ => inner.reversed.reverse

@[simp] theorem length_openLists_deliver (p : Progress) (start : Nat) (v : Value) :
    (p.deliver start v).openLists.length = p.openLists.length := by
  unfold deliver
  cases p.openLists <;> simp

theorem reversed_deliver (p : Progress) (start : Nat) (v : Value) :
    p.reversed <:+ (p.deliver start v).reversed := by
  unfold deliver
  split
  · exact List.suffix_cons ..
  · exact List.suffix_refl _

theorem reversed_openList {maxDepth : Nat} {next : Progress}
    (h : p.openList maxDepth offset = .ok next) : next.reversed = p.reversed := by
  unfold openList at h
  split at h
  · cases h
  · cases h
    rfl

theorem reversed_closeList {next : Progress} (h : p.closeList offset = .ok next) :
    p.reversed <:+ next.reversed := by
  unfold closeList at h
  split at h
  · cases h
  · next inner outer _ =>
      dsimp only at h
      split at h
      · cases h
      · cases h
        exact reversed_deliver { p with openLists := outer } ..

/-- A lexeme takes no item back. -/
theorem reversed_feed {maxDepth : Nat} {l : Lexeme.Located} {next : Progress}
    (h : p.feed maxDepth l = .ok next) : p.reversed <:+ next.reversed := by
  unfold feed at h
  split at h
  · exact reversed_openList h ▸ List.suffix_refl _
  · exact reversed_closeList h
  · cases h
  · split at h
    · cases h
      exact reversed_deliver ..
    · cases h

end Progress

theorem prefix_items_consume (maxDepth : Nat) (p : Progress) (ls : List Lexeme.Located) :
    p.reversed.reverse <+: (consume maxDepth p ls).items := by
  induction ls generalizing p with
  | nil => exact List.prefix_refl _
  | cons l ls ih =>
      rw [consume]
      split
      · rename_i next hfeed
        exact (List.reverse_prefix.mpr (Progress.reversed_feed hfeed)).trans (ih next)
      · exact List.prefix_refl _

/-- Reading on keeps the items that have been read. -/
theorem prefix_items_resume (config : Config) (p : Progress) (offset : Nat) (t : List Char) :
    p.reversed.reverse <+: (resume config p offset t).items :=
  prefix_items_consume ..

end Reader

end SmallScheme
