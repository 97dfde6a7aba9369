import SmallScheme.Text.Cluster.Kind

/-!
# Clusters

`clusters` cuts a text into its clusters, by the rules for extended grapheme clusters. A cluster
goes on as long as the next character joins what has been read of it. That depends on the kinds of
the last character and of the next one, and in three cases on what came before: the halves of flags
pair up, a pictograph is joined only to a pictograph, and a linker links only to a consonant. This
is kept in `Ending`.

Cutting loses nothing (`flatten_clusters`).
-/

namespace SmallScheme.Text

/-- What a cluster under way ends in. -/
structure Ending where
  /-- The kind of the last character. -/
  last : ClusterKind
  /-- An odd number of halves of flags. -/
  halfFlag : Bool
  /-- A pictograph and marks on it. -/
  pictograph : Bool
  /-- A pictograph, marks on it, and a joiner. -/
  joined : Bool
  /-- A consonant and marks on it that do not keep it apart. -/
  consonant : Bool
  /-- A consonant and marks of which one is a linker. -/
  linked : Bool
deriving DecidableEq, Repr

namespace Ending

def start (k : ClusterKind) : Ending where
  last := k
  halfFlag := k = .regional
  pictograph := k = .pictograph
  joined := false
  consonant := k = .consonant
  linked := false

def next (e : Ending) (k : ClusterKind) : Ending :=
  match k with
  | .regional => { start k with halfFlag := !e.halfFlag }
  | .mark =>
    { start k with pictograph := e.pictograph, consonant := e.consonant, linked := e.linked }
  | .linker =>
    { start k with pictograph := e.pictograph, consonant := e.consonant, linked := e.consonant }
  | .nonJoiner => { start k with pictograph := e.pictograph }
  | .joiner =>
    { start k with joined := e.pictograph, consonant := e.consonant, linked := e.linked }
  | _ => start k

/-- Whether a character of a kind belongs to the cluster under way. -/
def joins (e : Ending) (k : ClusterKind) : Bool :=
  match e.last, k with
  | .carriageReturn, .lineFeed => true
  | .leading, .leading | .leading, .vowel | .leading, .openSyllable | .leading, .closedSyllable
  | .vowel, .vowel | .vowel, .trailing | .openSyllable, .vowel | .openSyllable, .trailing
  | .trailing, .trailing | .closedSyllable, .trailing => true
  | .regional, .regional => e.halfFlag
  | .joiner, .pictograph => e.joined
  | last, k =>
    !last.isControl && !k.isControl
      && (k.isAttached || last = .prepended || (k = .consonant && e.linked))

end Ending

/-- The clusters of a text behind the part of a cluster that has been read, last character first. -/
def clustersFrom (e : Ending) (reversed : List Char) : List Char → List (List Char)
  | [] => [reversed.reverse]
  | c :: rest =>
    let k := ClusterKind.ofChar c
    if e.joins k then clustersFrom (e.next k) (c :: reversed) rest
    else reversed.reverse :: clustersFrom (.start k) [c] rest

def clusters : List Char → List (List Char)
  | [] => []
  | c :: rest => clustersFrom (.start (ClusterKind.ofChar c)) [c] rest

theorem flatten_clustersFrom (e : Ending) (reversed text : List Char) :
    (clustersFrom e reversed text).flatten = reversed.reverse ++ text := by
  induction text generalizing e reversed with
  | nil => simp [clustersFrom]
  | cons c rest ih =>
    simp only [clustersFrom]
    split <;> simp [ih]

/-- The clusters make up the text. -/
@[simp] theorem flatten_clusters (text : List Char) : (clusters text).flatten = text := by
  cases text with
  | nil => rfl
  | cons c rest => simp [clusters, flatten_clustersFrom]

end SmallScheme.Text
