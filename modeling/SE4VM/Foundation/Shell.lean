import Mathlib.Data.List.Basic

/-!
# Words and file name patterns

A text is split into words at white space, and `*suffix` stands for the file
names that end in `suffix`.  As in a shell without special options, names that
begin with a dot are passed over and a pattern that matches nothing stays as it
is written.
-/

namespace SE4VM.Foundation

abbrev Text := List Char

/-! ## Words -/

def blanks : List Char := [' ', '\t', '\n', '\r', Char.ofNat 11, Char.ofNat 12]

def blank (c : Char) : Bool := blanks.contains c

def words (t : Text) : List Text := (t.splitOnP blank).filter (· ≠ [])

/-- Nothing in the text would end a word. -/
def Solid (t : Text) : Prop := t.any blank = false

instance (t : Text) : Decidable (Solid t) := inferInstanceAs (Decidable (_ = _))

theorem Solid.blank_eq_false {t : Text} (h : Solid t) {c : Char} (hc : c ∈ t) :
    blank c = false :=
  eq_false_of_ne_true (List.any_eq_false.mp h c hc)

theorem Solid.notMem_of_blank {t : Text} (h : Solid t) {c : Char} (hc : blank c = true) :
    c ∉ t := by
  intro hmem
  rw [h.blank_eq_false hmem] at hc
  cases hc

theorem Solid.append {t u : Text} (ht : Solid t) (hu : Solid u) : Solid (t ++ u) := by
  rw [Solid, List.any_append, ht, hu, Bool.or_false]

/-- A class of characters is found not to contain white space by looking at the latter. -/
theorem solid_of_all {p : Char → Bool} (hp : blanks.all (fun c => !p c) = true) {t : Text}
    (h : t.all p = true) : Solid t := by
  refine List.any_eq_false.mpr fun c hc hblank => ?_
  have hnot := List.all_eq_true.mp hp c (List.contains_iff_mem.mp hblank)
  rw [List.all_eq_true.mp h c hc] at hnot
  cases hnot

theorem words_cons_of_blank {c : Char} (h : blank c = true) (t : Text) :
    words (c :: t) = words t := by
  have hsplit := List.splitOnP_append_cons [] t h
  rw [List.nil_append] at hsplit
  rw [words, hsplit]
  simp [words]

theorem words_append_cons {w : Text} {c : Char} (hw : w ≠ []) (hsolid : Solid w)
    (h : blank c = true) (t : Text) : words (w ++ c :: t) = w :: words t := by
  have hone : w.splitOnP blank = [w] :=
    List.splitOnP_eq_singleton fun c hc => hsolid.blank_eq_false hc
  rw [words, List.splitOnP_append_cons w t h, hone]
  simp [words, hw]

/-! ## Patterns -/

/-- The characters of paths that a shell neither splits nor expands. -/
def pathChar (c : Char) : Bool := c.isAlphanum || ['-', '_', '.', '/'].contains c

def hiddenName (name : Text) : Bool := name.head? == some '.'

def matchesSuffix (suffix name : Text) : Bool := !hiddenName name && suffix.isSuffixOf name

/-- The expansion of `*suffix` among the given names. -/
def glob (suffix : Text) (names : List Text) : List Text :=
  match names.filter (matchesSuffix suffix) with
  | [] => ['*' :: suffix]
  | name :: rest => name :: rest

theorem glob_of_ne_nil {suffix : Text} {names : List Text}
    (h : names.filter (matchesSuffix suffix) ≠ []) :
    glob suffix names = names.filter (matchesSuffix suffix) := by
  unfold glob
  split
  · next hnil => exact absurd hnil h
  · next hcons => rw [hcons]

theorem glob_of_nil {suffix : Text} {names : List Text}
    (h : names.filter (matchesSuffix suffix) = []) : glob suffix names = ['*' :: suffix] := by
  simp only [glob, h]

theorem matchesSuffix_star (suffix : Text) : matchesSuffix suffix ('*' :: suffix) = true := by
  have hsuffix : suffix <:+ '*' :: suffix := List.suffix_cons '*' suffix
  simp [matchesSuffix, hiddenName, hsuffix]

/-- The unexpanded pattern is no file's name: the pattern would have matched it. -/
theorem star_notMem_of_nil {suffix : Text} {names : List Text}
    (h : names.filter (matchesSuffix suffix) = []) : '*' :: suffix ∉ names := by
  intro hmem
  have hin : '*' :: suffix ∈ names.filter (matchesSuffix suffix) :=
    List.mem_filter.mpr ⟨hmem, matchesSuffix_star suffix⟩
  rw [h] at hin
  cases hin

end SE4VM.Foundation
