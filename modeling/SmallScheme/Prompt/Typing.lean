import SmallScheme.Text.Blank
import SmallScheme.Text.Cluster.Basic

/-!
# Typing with backspaces

A line at the prompt is taken as it would be typed: a backspace takes back the cluster before it, if
one is left. What a cluster takes up is remembered as its number of bytes, counted in a single byte.
So a cluster of 256 bytes or more is not taken back as a whole, and when the bytes that are taken
back end within a character the line cannot be read at all.

A line without backspaces is what it says (`typed?_of_not_mem`), and a backspace undoes a cluster of
ordinary size (`takeBack?_add`).
-/

namespace SmallScheme

/-- The text typed so far, last character first, and the widths of the clusters that can still be
taken back, the last one first. -/
structure Typing where
  reversed : List Char := []
  widths : List Nat := []
deriving DecidableEq, Repr

namespace Typing

def backspace : Char := '\x08'

/-- Removes so many bytes from the front of a text, unless they end within a character. -/
def dropBytes? : List Char → Nat → Option (List Char)
  | text, 0 => some text
  | [], _ + 1 => none
  | c :: rest, n + 1 =>
    if c.utf8Size ≤ n + 1 then dropBytes? rest (n + 1 - c.utf8Size) else none

/-- What a cluster takes up. -/
def width (cluster : List Char) : Nat :=
  Text.byteLength cluster % 256

def add (t : Typing) (cluster : List Char) : Typing :=
  ⟨cluster.reverse ++ t.reversed, width cluster :: t.widths⟩

/-- Takes back the last cluster, if there is one. -/
def takeBack? (t : Typing) : Option Typing :=
  match t.widths with
  | [] => some t
  | width :: earlier => (dropBytes? t.reversed width).map (⟨·, earlier⟩)

/-- What a cluster of a line does. -/
def feed? (t : Typing) (cluster : List Char) : Option Typing :=
  if cluster = [backspace] then t.takeBack? else some (t.add cluster)

def feedAll? (t : Typing) : List (List Char) → Option Typing
  | [] => some t
  | cluster :: rest => (t.feed? cluster).bind (feedAll? · rest)

def typed? (line : List Char) : Option (List Char) :=
  (feedAll? {} (Text.clusters line)).map (·.reversed.reverse)

/-! ## Laws -/

theorem dropBytes?_append (front back : List Char) :
    dropBytes? (front ++ back) (Text.byteLength front) = some back := by
  induction front with
  | nil => simp [dropBytes?]
  | cons c rest ih =>
    have hc := c.utf8Size_pos
    obtain ⟨n, hn⟩ : ∃ n, c.utf8Size + Text.byteLength rest = n + 1 :=
      ⟨c.utf8Size + Text.byteLength rest - 1, by omega⟩
    have hle : c.utf8Size ≤ n + 1 := by omega
    have hsub : n + 1 - c.utf8Size = Text.byteLength rest := by omega
    simp [dropBytes?, hn, hle, hsub, ih]

/-- What was typed last is taken back as a whole if it has fewer than 256 bytes. -/
theorem takeBack?_add (t : Typing) {cluster : List Char} (h : Text.byteLength cluster < 256) :
    (t.add cluster).takeBack? = some t := by
  have hdrop := dropBytes?_append cluster.reverse t.reversed
  rw [Text.byteLength_reverse] at hdrop
  simp [takeBack?, add, width, Nat.mod_eq_of_lt h, hdrop]

/-- Without backspaces clusters are typed one behind the other. -/
theorem feedAll?_of_not_mem {clusters : List (List Char)} (h : [backspace] ∉ clusters)
    (t : Typing) :
    ∃ after, feedAll? t clusters = some after
      ∧ after.reversed = clusters.flatten.reverse ++ t.reversed := by
  induction clusters generalizing t with
  | nil => exact ⟨t, rfl, by simp⟩
  | cons cluster rest ih =>
    obtain ⟨hne, hrest⟩ := not_or.mp (mt List.mem_cons.mpr h)
    obtain ⟨after, hfeed, hrev⟩ := ih hrest (t.add cluster)
    exact ⟨after, by simp [feedAll?, feed?, Ne.symm hne, hfeed], by simp [hrev, add]⟩

/-- A line without backspaces is what it says. -/
theorem typed?_of_not_mem {line : List Char} (h : backspace ∉ line) : typed? line = some line := by
  have hne : [backspace] ∉ Text.clusters line := fun hmem =>
    h (Text.flatten_clusters line ▸ List.mem_flatten.mpr ⟨_, hmem, by simp⟩)
  obtain ⟨after, hfeed, hrev⟩ := feedAll?_of_not_mem hne {}
  simp [typed?, hfeed, hrev]

end Typing

end SmallScheme
