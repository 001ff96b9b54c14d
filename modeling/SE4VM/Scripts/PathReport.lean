import Mathlib.Data.Char
import Mathlib.Data.List.Lex
import SE4VM.Foundation.Memory
import SE4VM.Foundation.Shell
import SE4VM.Scripts.SEDiff

/-!
# The path report of `SE-Diff.py`

`loadhash` runs `md5sum` over the `.pc` files of a directory and turns its
output into a dictionary from digests to paths; `lookup` prints what `compare`
found in two of them.
-/

namespace SE4VM.Scripts

open SE4VM.Foundation

/-! ## Directories and digests -/

structure File where
  name : Text
  content : List U8
  deriving DecidableEq, Repr

/-- A directory, its files in the order in which a shell lists them. -/
structure Directory where
  dirname : Text
  files : List File
  nodup : (files.map File.name).Nodup
  /-- The name is put into a command line as it is; klee calls its directories `klee-out-N`. -/
  plain : dirname.all pathChar = true

def hexDigit (c : Char) : Bool := "0123456789abcdef".toList.contains c

/-- `md5sum` prints a digest as 32 hexadecimal digits. -/
structure Md5 where
  digest : List U8 → Text
  length_digest : ∀ content, (digest content).length = 32
  hex : ∀ content, (digest content).all hexDigit = true

namespace Directory

def find (d : Directory) (name : Text) : Option File :=
  d.files.find? fun f => f.name = name

def path (d : Directory) (f : File) : Text := d.dirname ++ '/' :: f.name

def pcFiles (d : Directory) : List File :=
  d.files.filter fun f => ".pc".toList.isSuffixOf f.name

end Directory

/-! ## `loadhash` -/

def escapeChar (c : Char) : Text :=
  if c = '\\' then ['\\', '\\'] else if c = '\n' then ['\\', 'n'] else [c]

/-- A name with a backslash or a line feed is escaped, and its line begins with a backslash. -/
def md5sumLine (md5 : Md5) (d : Directory) (f : File) : Text :=
  if '\\' ∈ d.path f ∨ '\n' ∈ d.path f then
    '\\' :: md5.digest f.content ++ ' ' :: ' ' :: (d.path f).flatMap escapeChar ++ ['\n']
  else
    md5.digest f.content ++ ' ' :: ' ' :: d.path f ++ ['\n']

/-- A file that does not exist makes `md5sum` fail, and `check_output` raises an exception. -/
def md5sum (md5 : Md5) (d : Directory) (names : List Text) : Option Text := do
  let files ← names.mapM d.find
  return files.flatMap (md5sumLine md5 d)

/-- `{a[i]: a[i+1] for i in range(0, len(a), 2)}`, which needs a word for every key. -/
def pairUp (b : Dict Text Text) : List Text → Option (Dict Text Text)
  | [] => some b
  | [_] => none
  | key :: value :: rest => pairUp (b.insert key value) rest

def loadhash (md5 : Md5) (d : Directory) : Option (Dict Text Text) := do
  let a ← md5sum md5 d (glob ".pc".toList (d.files.map File.name))
  pairUp ∅ (words a)

/-! ## `lookup` -/

inductive Side where
  | first
  | second
  deriving DecidableEq, Repr

inductive Heading where
  | only (side : Side)
  | inCommon
  deriving DecidableEq, Repr

/-- A printed line; an entry knows its heading and from which dictionary its path is. -/
inductive Line where
  | heading (heading : Heading)
  | entry (heading : Heading) (side : Side) (number : Option Nat) (path : Text)
  deriving DecidableEq, Repr

def pred (content : String) : String := "\x1b[91m" ++ content ++ "\x1b[0m"

/-- The text of a line, where the two programs are called `f1` and `f2`. -/
def Line.text (f1 f2 : String) : Line → String
  | heading (.only .first) => "\nPaths only generated from " ++ pred f1 ++ ":"
  | heading (.only .second) => "\nPaths only generated from " ++ pred f2 ++ ":"
  | heading .inCommon => "\nPaths in common:"
  | entry _ _ (some number) path => toString number ++ "\t:   " ++ String.ofList path
  | entry _ _ none path => "\t:   " ++ String.ofList path

def onlyLines (side : Side) (dict : Dict Text Text) (items : List (Text × Nat)) :
    Option (List Line) :=
  items.mapM fun (item, i) => do
    let path ← dict.lookup item
    return .entry (.only side) side (some (i + 1)) path

def commonLines (dict1 dict2 : Dict Text Text) (items : List ((Text × Text) × Nat)) :
    Option (List (List Line)) :=
  items.mapM fun (item, i) => do
    let path1 ← dict1.lookup item.1
    let path2 ← dict2.lookup item.2
    return [.entry .inCommon .first (some (i + 1)) path1, .entry .inCommon .second none path2]

/-- `None` cannot be added to a string, so a key without a path would be an exception. -/
def lookup (result : Comparison Text) (dict1 dict2 : Dict Text Text) : Option (List Line) := do
  let only1 ← onlyLines .first dict1 result.l1.zipIdx
  let only2 ← onlyLines .second dict2 result.l2.zipIdx
  let both ← commonLines dict1 dict2 result.l0.zipIdx
  return .heading (.only .first) :: only1 ++ .heading (.only .second) :: only2 ++
    .heading .inCommon :: both.flatten

/-- The end of the main program; `none` means that an exception stopped it. -/
def pathReport (md5 : Md5) (fuel : Nat) (d1 d2 : Directory) : Run (Option (List Line)) :=
  match loadhash md5 d1, loadhash md5 d2 with
  | some dt1, some dt2 => do
      let diff ← compare fuel dt1 dt2
      return lookup diff dt1 dt2
  | _, _ => .ok none

/-! ## What `loadhash` loads -/

namespace Directory

variable {d : Directory} {f g : File}

theorem eq_of_name (hf : f ∈ d.files) (hg : g ∈ d.files) (h : f.name = g.name) : f = g :=
  List.inj_on_of_nodup_map d.nodup hf hg h

theorem eq_of_path (hf : f ∈ d.files) (hg : g ∈ d.files) (h : d.path f = d.path g) : f = g := by
  rw [path, path, List.append_cancel_left_eq, List.cons_inj_right] at h
  exact eq_of_name hf hg h

theorem find_name (hf : f ∈ d.files) : d.find f.name = some f := by
  cases hfind : d.find f.name with
  | none => simpa using List.find?_eq_none.mp hfind f hf
  | some g =>
      have hname := List.find?_some hfind
      rw [eq_of_name (List.mem_of_find?_eq_some hfind) hf (by simpa using hname)]

theorem mapM_find {fs : List File} (h : fs ⊆ d.files) :
    (fs.map File.name).mapM d.find = some fs := by
  rw [List.mapM_map]
  have hall : ∀ f ∈ fs, (d.find ∘ File.name) f = some (id f) := fun f hf => find_name (h hf)
  rw [mapM_eq_some hall, List.map_id]

def visible (d : Directory) : List File :=
  d.files.filter fun f => matchesSuffix ".pc".toList f.name

theorem mem_visible : f ∈ d.visible ↔ f ∈ d.pcFiles ∧ hiddenName f.name = false := by
  simp only [visible, pcFiles, matchesSuffix, List.mem_filter, Bool.and_eq_true, Bool.not_eq_true']
  tauto

theorem visible_subset : d.visible ⊆ d.files := List.filter_sublist.subset

theorem visible_of_nil (h : d.pcFiles = []) : d.visible = [] := by
  refine List.eq_nil_iff_forall_not_mem.mpr fun f hf => ?_
  have hpc := (mem_visible.mp hf).1
  rw [h] at hpc
  cases hpc

theorem pcFiles_subset : d.pcFiles ⊆ d.files := List.filter_sublist.subset

theorem map_name_visible :
    d.visible.map File.name = (d.files.map File.name).filter (matchesSuffix ".pc".toList) := by
  rw [List.filter_map]
  rfl

theorem path_solid (h : Solid f.name) : Solid (d.path f) := by
  have hslash : Solid ('/' :: f.name) := Solid.append (t := ['/']) (by decide) h
  exact (solid_of_all (by decide) d.plain).append hslash

theorem backslash_notMem_path (h : '\\' ∉ f.name) : '\\' ∉ d.path f := by
  intro hc
  rcases List.mem_append.mp hc with hc | hc
  · exact absurd (List.all_eq_true.mp d.plain _ hc) (by decide)
  · rcases List.mem_cons.mp hc with hc | hc
    · exact absurd hc (by decide)
    · exact h hc

end Directory

theorem Md5.solid (md5 : Md5) (content : List U8) : Solid (md5.digest content) :=
  solid_of_all (by decide) (md5.hex content)

theorem Md5.ne_nil (md5 : Md5) (content : List U8) : md5.digest content ≠ [] := by
  intro h
  have hlen := md5.length_digest content
  rw [h] at hlen
  cases hlen

theorem solid_escape {t : Text} (h : Solid t) : Solid (t.flatMap escapeChar) := by
  refine List.any_eq_false.mpr fun c hc hblank => ?_
  obtain ⟨b, hb, hc⟩ := List.mem_flatMap.mp hc
  have hold := h.blank_eq_false hb
  rw [escapeChar] at hc
  split_ifs at hc with hback hfeed
  · rcases List.mem_pair.mp hc with rfl | rfl <;> cases hblank
  · exact h.notMem_of_blank (by decide) (hfeed ▸ hb)
  · obtain rfl := List.mem_singleton.mp hc
    rw [hold] at hblank
    cases hblank

theorem count_escape {t : Text} (h : '\n' ∉ t) :
    (t.flatMap escapeChar).count '\\' = 2 * t.count '\\' := by
  induction t with
  | nil => rfl
  | cons c t ih =>
      obtain ⟨hc, ht⟩ := not_or.mp (mt List.mem_cons.mpr h)
      rw [List.flatMap_cons, List.count_append, ih ht, List.count_cons, escapeChar,
        if_neg (Ne.symm hc)]
      by_cases hback : c = '\\'
      · simp [hback]
        omega
      · simp [hback]

section Load

variable {md5 : Md5} {d : Directory}

def printedPair (md5 : Md5) (d : Directory) (f : File) : Text × Text :=
  if '\\' ∈ d.path f then ('\\' :: md5.digest f.content, (d.path f).flatMap escapeChar)
  else (md5.digest f.content, d.path f)

theorem words_md5sumLine {f : File} (hf : Solid f.name) (t : Text) :
    words (md5sumLine md5 d f ++ t) =
      (printedPair md5 d f).1 :: (printedPair md5 d f).2 :: words t := by
  have hsolid : Solid (d.path f) := Directory.path_solid hf
  have hfeed : '\n' ∉ d.path f := hsolid.notMem_of_blank (by decide)
  have hne : d.path f ≠ [] := by simp [Directory.path]
  have hpair : ∀ {key path : Text}, key ≠ [] → Solid key → path ≠ [] → Solid path →
      words (key ++ ' ' :: ' ' :: path ++ ['\n'] ++ t) = key :: path :: words t := by
    intro key path hkey hkey' hpath hpath'
    simp only [List.append_assoc, List.cons_append, List.nil_append]
    rw [words_append_cons hkey hkey' rfl, words_cons_of_blank rfl,
      words_append_cons hpath hpath' rfl]
  simp only [md5sumLine, printedPair, hfeed, or_false]
  split_ifs with hback
  · refine hpair (List.cons_ne_nil _ _) (Solid.append (t := ['\\']) (by decide) (md5.solid _)) ?_
      (solid_escape hsolid)
    intro hnil
    have hcount := count_escape hfeed
    rw [hnil, List.count_nil] at hcount
    have hpos := List.count_pos_iff.mpr hback
    omega
  · exact hpair (md5.ne_nil _) (md5.solid _) hne hsolid

theorem words_md5sum {fs : List File} (h : ∀ f ∈ fs, Solid f.name) :
    words (fs.flatMap (md5sumLine md5 d)) =
      (fs.map (printedPair md5 d)).flatMap fun p => [p.1, p.2] := by
  induction fs with
  | nil => rfl
  | cons f fs ih =>
      rw [List.flatMap_cons, words_md5sumLine (h f List.mem_cons_self),
        ih fun g hg => h g (List.mem_cons_of_mem f hg)]
      rfl

theorem pairUp_flatMap (b : Dict Text Text) (ps : List (Text × Text)) :
    pairUp b (ps.flatMap fun p => [p.1, p.2]) = some (b.insertAll ps) := by
  induction ps generalizing b with
  | nil => rfl
  | cons p ps ih => exact ih (b.insert p.1 p.2)

def hashes (md5 : Md5) (d : Directory) (fs : List File) : Dict Text Text :=
  Dict.insertAll ∅ (fs.map (printedPair md5 d))

theorem loadhash_of_ne_nil (h : ∀ f ∈ d.visible, Solid f.name) (hne : d.visible ≠ []) :
    loadhash md5 d = some (hashes md5 d d.visible) := by
  have hnames : (d.files.map File.name).filter (matchesSuffix ".pc".toList) ≠ [] := by
    rw [← Directory.map_name_visible]
    exact fun hnil => hne (List.map_eq_nil_iff.mp hnil)
  rw [loadhash, glob_of_ne_nil hnames, ← Directory.map_name_visible, md5sum,
    Directory.mapM_find Directory.visible_subset]
  simp only [Option.bind_eq_bind, Option.bind_some, Option.pure_def]
  rw [words_md5sum h, pairUp_flatMap, hashes]

/-- Without a matching file the pattern itself is passed to `md5sum`. -/
theorem loadhash_of_nil (hnil : d.visible = []) : loadhash md5 d = none := by
  have hnames : (d.files.map File.name).filter (matchesSuffix ".pc".toList) = [] := by
    rw [← Directory.map_name_visible, hnil, List.map_nil]
  have hfind : d.find ('*' :: ".pc".toList) = none := by
    refine List.find?_eq_none.mpr fun f hf hname => star_notMem_of_nil hnames ?_
    rw [← of_decide_eq_true hname]
    exact List.mem_map_of_mem hf
  rw [loadhash, glob_of_nil hnames, md5sum, List.mapM_cons, hfind]
  rfl

theorem of_lookup_hashes {fs : List File} {k p : Text}
    (h : (hashes md5 d fs).lookup k = some p) : ∃ f ∈ fs, printedPair md5 d f = (k, p) := by
  rcases Dict.of_lookup_insertAll h with h | h
  · obtain ⟨f, hf, hp⟩ := List.mem_map.mp h
    exact ⟨f, hf, hp⟩
  · cases h

theorem length_keys_hashes (fs : List File) : (hashes md5 d fs).keys.length ≤ fs.length := by
  have h := Dict.length_keys_insertAll ∅ (fs.map (printedPair md5 d))
  simpa [hashes] using h

def pathIn (dict : Dict Text Text) (k : Text) : Text := (dict.lookup k).getD []

theorem lookup_eq_pathIn {dict : Dict Text Text} {k : Text} (h : k ∈ dict) :
    dict.lookup k = some (pathIn dict k) := by
  obtain ⟨p, hp⟩ := Option.isSome_iff_exists.mp (AList.lookup_isSome.mpr h)
  rw [pathIn, hp, Option.getD_some]

/-! ## Names that are printed as they are -/

/-- Only the names with a backslash are escaped, and then they have twice as many. -/
theorem unescaped_of_printed {fs : List File} (hfs : ∀ f ∈ fs, Solid f.name)
    (h : ∀ f ∈ fs, ∃ g ∈ fs, (printedPair md5 d g).2 = d.path f) :
    ∀ f ∈ fs, '\\' ∉ d.path f := by
  have hall : ∀ n, ∀ f ∈ fs, (d.path f).count '\\' = n → '\\' ∉ d.path f := by
    intro n
    induction n using Nat.strong_induction_on with
    | h n ih =>
        intro f hf hn hback
        obtain ⟨g, hg, hprinted⟩ := h f hf
        rw [printedPair] at hprinted
        split_ifs at hprinted with hg' <;> dsimp only at hprinted
        · -- `g` has half as many, so it would be shown by a file with a quarter, and so on.
          have hcount := count_escape
            ((Directory.path_solid (d := d) (hfs g hg)).notMem_of_blank (by decide))
          rw [hprinted, hn] at hcount
          have hpos := List.count_pos_iff.mpr hg'
          exact ih _ (by omega) g hg rfl hg'
        · exact hg' (hprinted ▸ hback)
  exact fun f hf => hall _ f hf rfl

/-! ## Names without a backslash -/

/-- No listed name has a backslash, so that `md5sum` prints them as they are. -/
def Unescaped (fs : List File) : Prop := ∀ f ∈ fs, '\\' ∉ f.name

instance (fs : List File) : Decidable (Unescaped fs) :=
  inferInstanceAs (Decidable (∀ f ∈ fs, _))

theorem Unescaped.printedPair_eq {fs : List File} (h : Unescaped fs) {f : File} (hf : f ∈ fs) :
    printedPair md5 d f = (md5.digest f.content, d.path f) :=
  if_neg (Directory.backslash_notMem_path (h f hf))

theorem mem_hashes {fs : List File} (h : Unescaped fs) {k : Text} :
    k ∈ hashes md5 d fs ↔ ∃ f ∈ fs, md5.digest f.content = k := by
  rw [hashes, Dict.mem_insertAll]
  simp only [AList.notMem_empty, false_or, List.map_map, List.mem_map, Function.comp]
  exact exists_congr fun f => and_congr_right fun hf => by rw [h.printedPair_eq hf]

theorem Unescaped.of_lookup_hashes {fs : List File} (hfs : Unescaped fs) {k p : Text}
    (h : (hashes md5 d fs).lookup k = some p) :
    ∃ f ∈ fs, md5.digest f.content = k ∧ d.path f = p := by
  obtain ⟨f, hf, hpair⟩ := Scripts.of_lookup_hashes h
  rw [hfs.printedPair_eq hf] at hpair
  cases hpair
  exact ⟨f, hf, rfl, rfl⟩

def Kept (md5 : Md5) (d : Directory) (dict : Dict Text Text) (f : File) : Prop :=
  dict.lookup (md5.digest f.content) = some (d.path f)

instance (dict : Dict Text Text) (f : File) : Decidable (Kept md5 d dict f) :=
  inferInstanceAs (Decidable (_ = _))

section Keys

variable {fs : List File} (hun : Unescaped fs) {keys : List Text}

include hun

theorem exists_of_pathIn (hmem : ∀ k ∈ keys, k ∈ hashes md5 d fs) {k : Text} (hk : k ∈ keys) :
    ∃ f ∈ fs, md5.digest f.content = k ∧ d.path f = pathIn (hashes md5 d fs) k :=
  hun.of_lookup_hashes (lookup_eq_pathIn (hmem k hk))

theorem nodup_paths (hfs : fs ⊆ d.files) (hkeys : keys.Nodup)
    (hmem : ∀ k ∈ keys, k ∈ hashes md5 d fs) : (keys.map (pathIn (hashes md5 d fs))).Nodup := by
  refine List.Nodup.map_on (fun k hk l hl heq => ?_) hkeys
  obtain ⟨f, hf, rfl, hpf⟩ := exists_of_pathIn hun hmem hk
  obtain ⟨g, hg, rfl, hpg⟩ := exists_of_pathIn hun hmem hl
  rw [Directory.eq_of_path (hfs hf) (hfs hg) (by rw [hpf, hpg, heq])]

theorem mem_paths (hfs : fs ⊆ d.files) (hmem : ∀ k ∈ keys, k ∈ hashes md5 d fs) {f : File}
    (hf : f ∈ d.files) :
    d.path f ∈ keys.map (pathIn (hashes md5 d fs)) ↔
      md5.digest f.content ∈ keys ∧ Kept md5 d (hashes md5 d fs) f := by
  constructor
  · intro h
    obtain ⟨k, hk, hpath⟩ := List.mem_map.mp h
    obtain ⟨g, hg, hdigest, hpg⟩ := exists_of_pathIn hun hmem hk
    obtain rfl := Directory.eq_of_path (hfs hg) hf (hpg.trans hpath)
    subst hdigest
    exact ⟨hk, by rw [Kept, lookup_eq_pathIn (hmem _ hk), hpath]⟩
  · rintro ⟨hk, hkept⟩
    refine List.mem_map.mpr ⟨_, hk, ?_⟩
    rw [pathIn, hkept, Option.getD_some]

theorem count_paths (hfs : fs ⊆ d.files) (hkeys : keys.Nodup)
    (hmem : ∀ k ∈ keys, k ∈ hashes md5 d fs) {f : File} (hf : f ∈ d.files) :
    (keys.map (pathIn (hashes md5 d fs))).count (d.path f) =
      if md5.digest f.content ∈ keys ∧ Kept md5 d (hashes md5 d fs) f then 1 else 0 := by
  split_ifs with h
  · exact List.count_eq_one_of_mem (nodup_paths hun hfs hkeys hmem)
      ((mem_paths hun hfs hmem hf).mpr h)
  · exact List.count_eq_zero_of_not_mem fun hin => h ((mem_paths hun hfs hmem hf).mp hin)

end Keys

/-! ## When every file is kept -/

/-- No two `.pc` files have one content, and none is hidden from the pattern. -/
structure Directory.Separate (d : Directory) : Prop where
  visible : ∀ f ∈ d.pcFiles, hiddenName f.name = false
  content : ∀ f ∈ d.pcFiles, ∀ g ∈ d.pcFiles, f.content = g.content → f = g

theorem Directory.Separate.of_nil (h : d.pcFiles = []) : d.Separate where
  visible f hf := by simp [h] at hf
  content f hf := by simp [h] at hf

theorem Directory.Separate.visible_eq (h : d.Separate) : d.visible = d.pcFiles := by
  refine List.filter_congr fun f hf => ?_
  rw [matchesSuffix]
  cases hpc : ".pc".toList.isSuffixOf f.name with
  | true =>
      rw [h.visible f (List.mem_filter.mpr ⟨hf, hpc⟩)]
      rfl
  | false => rw [Bool.and_false]

/-- Different contents of the given files have different digests. -/
def Collisionless (md5 : Md5) (fs : List File) : Prop :=
  ∀ f ∈ fs, ∀ g ∈ fs, md5.digest f.content = md5.digest g.content → f.content = g.content

theorem Collisionless.mono {fs gs : List File} (h : Collisionless md5 gs) (hsub : fs ⊆ gs) :
    Collisionless md5 fs :=
  fun f hf g hg => h f (hsub hf) g (hsub hg)

theorem separate_of_kept (hun : Unescaped d.visible)
    (h : ∀ f ∈ d.pcFiles, Kept md5 d (hashes md5 d d.visible) f) :
    d.Separate where
  visible f hf := by
    obtain ⟨g, hg, -, hpath⟩ := hun.of_lookup_hashes (h f hf)
    obtain rfl := Directory.eq_of_path (Directory.visible_subset hg)
      (Directory.pcFiles_subset hf) hpath
    exact (Directory.mem_visible.mp hg).2
  content f hf g hg heq := by
    -- One digest leads back to one path, so files of equal content are the same file.
    have hkept := h f hf
    rw [Kept, heq, h g hg, Option.some.injEq] at hkept
    exact (Directory.eq_of_path (Directory.pcFiles_subset hg)
      (Directory.pcFiles_subset hf) hkept).symm

theorem Directory.Separate.kept (h : d.Separate) (hun : Unescaped d.pcFiles)
    (hmd5 : Collisionless md5 d.pcFiles) {f : File} (hf : f ∈ d.pcFiles) :
    Kept md5 d (hashes md5 d d.visible) f := by
  have hnodup : d.pcFiles.Nodup := (List.Nodup.of_map _ d.nodup).filter _
  have hpairs : d.pcFiles.map (printedPair md5 d) =
      d.pcFiles.map fun f => (md5.digest f.content, d.path f) :=
    List.map_congr_left fun f hf => hun.printedPair_eq hf
  have hdigests :
      ((d.pcFiles.map fun f => (md5.digest f.content, d.path f)).map Prod.fst).Nodup := by
    rw [List.map_map]
    exact List.Nodup.map_on (fun f hf g hg heq => h.content f hf g hg (hmd5 f hf g hg heq)) hnodup
  rw [h.visible_eq, hashes, hpairs]
  exact Dict.lookup_insertAll hdigests (List.mem_map_of_mem hf)

end Load

/-! ## What `lookup` prints -/

def Side.pick {α : Type} (side : Side) (a b : α) : α :=
  match side with
  | first => a
  | second => b

def Line.shownAs (h : Heading) (side : Side) : Line → Option Text
  | heading _ => none
  | entry h' side' _ path => if h' = h ∧ side' = side then some path else none

def shown (h : Heading) (side : Side) (lines : List Line) : List Text :=
  lines.filterMap (Line.shownAs h side)

section Lookup

variable {dict1 dict2 : Dict Text Text}

theorem onlyLines_eq (side : Side) {dict : Dict Text Text} {items : List Text}
    (h : ∀ k ∈ items, k ∈ dict) :
    onlyLines side dict items.zipIdx = some (items.zipIdx.map fun p =>
      .entry (.only side) side (some (p.2 + 1)) (pathIn dict p.1)) := by
  refine mapM_eq_some fun p hp => ?_
  simp only [lookup_eq_pathIn (h p.1 (List.fst_mem_of_mem_zipIdx hp))]
  rfl

theorem commonLines_eq {items : List (Text × Text)}
    (h : ∀ p ∈ items, p.1 ∈ dict1 ∧ p.2 ∈ dict2) :
    commonLines dict1 dict2 items.zipIdx = some (items.zipIdx.map fun p =>
      [.entry .inCommon .first (some (p.2 + 1)) (pathIn dict1 p.1.1),
        .entry .inCommon .second none (pathIn dict2 p.1.2)]) := by
  refine mapM_eq_some fun p hp => ?_
  obtain ⟨h1, h2⟩ := h p.1 (List.fst_mem_of_mem_zipIdx hp)
  simp only [lookup_eq_pathIn h1, lookup_eq_pathIn h2]
  rfl

private theorem map_zipIdx {α β : Type} (f : α → β) (items : List α) :
    (items.zipIdx.map fun p => f p.1) = items.map f := by
  have h := congrArg (List.map f) (List.zipIdx_map_fst 0 items)
  rwa [List.map_map] at h

theorem shown_onlyLines (h : Heading) (s side : Side) (dict : Dict Text Text)
    (items : List Text) :
    shown h s (items.zipIdx.map fun p =>
        .entry (.only side) side (some (p.2 + 1)) (pathIn dict p.1)) =
      if .only side = h ∧ side = s then items.map (pathIn dict) else [] := by
  rw [shown, List.filterMap_map]
  split_ifs with hs
  · have hsome : (Line.shownAs h s ∘ fun p : Text × Nat =>
        .entry (.only side) side (some (p.2 + 1)) (pathIn dict p.1)) =
        some ∘ fun p => pathIn dict p.1 := by
      funext p
      simp only [Function.comp, Line.shownAs, if_pos hs]
    rw [hsome, List.filterMap_eq_map]
    exact map_zipIdx (pathIn dict) items
  · refine List.filterMap_eq_nil_iff.mpr fun p _ => ?_
    simp only [Function.comp, Line.shownAs, if_neg hs]

theorem shown_commonLines (h : Heading) (side : Side) (items : List (Text × Text)) :
    shown h side (items.zipIdx.map fun p =>
        [Line.entry .inCommon .first (some (p.2 + 1)) (pathIn dict1 p.1.1),
          .entry .inCommon .second none (pathIn dict2 p.1.2)]).flatten =
      if .inCommon = h then
        items.map fun p => pathIn (side.pick dict1 dict2) (side.pick p.1 p.2)
      else [] := by
  have hpair : (List.filterMap (Line.shownAs h side) ∘ fun p : (Text × Text) × Nat =>
      [Line.entry .inCommon .first (some (p.2 + 1)) (pathIn dict1 p.1.1),
        .entry .inCommon .second none (pathIn dict2 p.1.2)]) =
      fun p => if .inCommon = h then
        [pathIn (side.pick dict1 dict2) (side.pick p.1.1 p.1.2)] else [] := by
    funext p
    by_cases hh : Heading.inCommon = h <;> cases side <;>
      simp [Line.shownAs, Side.pick, hh]
  rw [shown, List.filterMap_flatten, List.map_map, hpair]
  split_ifs with hh
  · rw [← List.flatMap_def, ← List.map_eq_flatMap]
    exact map_zipIdx (fun p => pathIn (side.pick dict1 dict2) (side.pick p.1 p.2)) items
  · simp

theorem shown_append (h : Heading) (side : Side) (lines more : List Line) :
    shown h side (lines ++ more) = shown h side lines ++ shown h side more :=
  List.filterMap_append

theorem shown_heading (h h' : Heading) (side : Side) (lines : List Line) :
    shown h side (.heading h' :: lines) = shown h side lines := rfl

theorem lookup_of_partitions {c : Comparison Text} (hc : Partitions c dict1.keys dict2.keys) :
    ∃ lines, lookup c dict1 dict2 = some lines ∧ ∀ side : Side,
      shown (.only side) side lines =
          (side.pick c.l1 c.l2).map (pathIn (side.pick dict1 dict2)) ∧
        shown .inCommon side lines =
          (c.l0.map Prod.fst).map (pathIn (side.pick dict1 dict2)) := by
  have hone := onlyLines_eq Side.first fun k hk => AList.mem_keys.mpr ((hc.mem_l1 k).mp hk).1
  have htwo := onlyLines_eq Side.second fun k hk => AList.mem_keys.mpr ((hc.mem_l2 k).mp hk).1
  have hboth : ∀ p ∈ c.l0, p.1 ∈ dict1 ∧ p.2 ∈ dict2 := fun p hp => by
    obtain ⟨heq, hp1, hp2⟩ := (hc.mem_l0 p).mp hp
    exact ⟨AList.mem_keys.mpr hp1, AList.mem_keys.mpr (heq ▸ hp2)⟩
  have hsame : ∀ side : Side, (c.l0.map fun p => pathIn (side.pick dict1 dict2)
      (side.pick p.1 p.2)) = (c.l0.map Prod.fst).map (pathIn (side.pick dict1 dict2)) := by
    intro side
    rw [List.map_map]
    refine List.map_congr_left fun p hp => ?_
    cases side with
    | first => rfl
    | second => exact congrArg (pathIn dict2) ((hc.mem_l0 p).mp hp).1.symm
  refine ⟨_, by rw [lookup, hone, htwo, commonLines_eq hboth]; rfl, fun side => ?_⟩
  simp only [shown_append, shown_heading, List.cons_append, shown_onlyLines, shown_commonLines,
    hsame]
  cases side <;> simp [Side.pick]

end Lookup

/-! ## The report as a whole -/

def HasTwin (d : Directory) (f : File) : Prop := ∃ g ∈ d.pcFiles, g.content = f.content

instance (d : Directory) (f : File) : Decidable (HasTwin d f) :=
  inferInstanceAs (Decidable (∃ g ∈ _, _))

/-- Every `.pc` file of `d` stands once under the heading it belongs under. -/
def ReportedFor (side : Side) (lines : List Line) (d other : Directory) : Prop :=
  ∀ f ∈ d.pcFiles,
    (shown .inCommon side lines).count (d.path f) = (if HasTwin other f then 1 else 0) ∧
      (shown (.only side) side lines).count (d.path f) = if HasTwin other f then 0 else 1

def Reported (lines : List Line) (d1 d2 : Directory) : Prop :=
  ReportedFor .first lines d1 d2 ∧ ReportedFor .second lines d2 d1

section Report

variable {md5 : Md5} {d d1 d2 other : Directory} {side : Side} {lines : List Line}

theorem reportedFor_nil : ReportedFor side [] d other ↔ d.pcFiles = [] := by
  constructor
  · intro h
    refine List.eq_nil_iff_forall_not_mem.mpr fun f hf => ?_
    obtain ⟨hcommon, honly⟩ := h f hf
    by_cases htwin : HasTwin other f <;> simp [shown, htwin] at hcommon honly
  · intro h f hf
    rw [h] at hf
    cases hf

/-- One side of the report is right when all files are kept and twins found by their digests. -/
theorem reportedFor_iff (other : Directory) (dict : Dict Text Text)
    (hun : Unescaped d.visible) {only both : List Text}
    (honly : shown (.only side) side lines = only.map (pathIn (hashes md5 d d.visible)))
    (hboth : shown .inCommon side lines = both.map (pathIn (hashes md5 d d.visible)))
    (hmemOnly : ∀ k, k ∈ only ↔ k ∈ hashes md5 d d.visible ∧ k ∉ dict)
    (hmemBoth : ∀ k, k ∈ both ↔ k ∈ hashes md5 d d.visible ∧ k ∈ dict)
    (hnodupOnly : only.Nodup) (hnodupBoth : both.Nodup) :
    ReportedFor side lines d other ↔ ∀ f ∈ d.pcFiles,
      Kept md5 d (hashes md5 d d.visible) f ∧
        (md5.digest f.content ∈ dict ↔ HasTwin other f) := by
  refine forall₂_congr fun f hf => ?_
  have hfile := Directory.pcFiles_subset hf
  rw [hboth, honly,
    count_paths hun Directory.visible_subset hnodupBoth (fun k hk => ((hmemBoth k).mp hk).1) hfile,
    count_paths hun Directory.visible_subset hnodupOnly (fun k hk => ((hmemOnly k).mp hk).1) hfile]
  by_cases hkept : Kept md5 d (hashes md5 d d.visible) f
  · have hmem : md5.digest f.content ∈ hashes md5 d d.visible :=
      AList.lookup_isSome.mp (Option.isSome_of_eq_some hkept)
    by_cases hdict : md5.digest f.content ∈ dict <;> by_cases htwin : HasTwin other f <;>
      simp [hmemBoth, hmemOnly, hkept, hmem, hdict, htwin]
  · -- A file that is not kept stands under no heading.
    by_cases htwin : HasTwin other f <;> simp [hkept, htwin]

theorem mem_hashes_iff_hasTwin (hother : other.Separate) (hun : Unescaped other.pcFiles)
    {fs : List File}
    (hmd5 : Collisionless md5 fs) (hfs : other.pcFiles ⊆ fs) {f : File} (hf : f ∈ fs) :
    md5.digest f.content ∈ hashes md5 other other.visible ↔ HasTwin other f := by
  rw [hother.visible_eq, mem_hashes hun, HasTwin]
  refine exists_congr fun g => and_congr_right fun hg => ?_
  exact ⟨fun h => hmd5 g (hfs hg) f hf h, fun h => congrArg md5.digest h⟩

theorem pathReport_of_nil (h : d1.visible = [] ∨ d2.visible = []) (fuel : Nat) :
    pathReport md5 fuel d1 d2 = .ok none := by
  unfold pathReport
  split
  · next h1 h2 =>
      rcases h with h | h
      · rw [loadhash_of_nil h] at h1
        cases h1
      · rw [loadhash_of_nil h] at h2
        cases h2
  · rfl

/-- The lines of a report, whatever `md5sum` makes of the names. -/
theorem pathReport_of_ne_nil (hsolid : ∀ f ∈ d1.pcFiles ++ d2.pcFiles, Solid f.name)
    (hne1 : d1.visible ≠ []) (hne2 : d2.visible ≠ []) {fuel : Nat}
    (hfuel : d1.files.length + d2.files.length < fuel) :
    ∃ c lines, pathReport md5 fuel d1 d2 = .ok (some lines) ∧
      Partitions c (hashes md5 d1 d1.visible).keys (hashes md5 d2 d2.visible).keys ∧
      ∀ side : Side, shown (.only side) side lines = (side.pick c.l1 c.l2).map
          (pathIn (side.pick (hashes md5 d1 d1.visible) (hashes md5 d2 d2.visible))) ∧
        shown .inCommon side lines = (c.l0.map Prod.fst).map
          (pathIn (side.pick (hashes md5 d1 d1.visible) (hashes md5 d2 d2.visible))) := by
  have hload1 : loadhash md5 d1 = some (hashes md5 d1 d1.visible) :=
    loadhash_of_ne_nil (fun f hf => hsolid f
      (List.mem_append_left _ (Directory.mem_visible.mp hf).1)) hne1
  have hload2 : loadhash md5 d2 = some (hashes md5 d2 d2.visible) :=
    loadhash_of_ne_nil (fun f hf => hsolid f
      (List.mem_append_right _ (Directory.mem_visible.mp hf).1)) hne2
  have hkeys : ∀ d : Directory, (hashes md5 d d.visible).keys.length ≤ d.files.length :=
    fun d => (length_keys_hashes d.visible).trans (List.length_filter_le _ _)
  obtain ⟨c, hcompare, hc⟩ : ∃ c,
      compare fuel (hashes md5 d1 d1.visible) (hashes md5 d2 d2.visible) = .ok c ∧
        Partitions c (hashes md5 d1 d1.visible).keys (hashes md5 d2 d2.visible).keys :=
    ⟨_, compare_eq (by have := hkeys d1; have := hkeys d2; omega), splitKeys_sortedKeys _ _⟩
  obtain ⟨lines, hlookup, hshown⟩ := lookup_of_partitions hc
  exact ⟨c, lines, by simp [pathReport, hload1, hload2, hcompare, hlookup], hc, hshown⟩

theorem unescaped_of_reported (hsolid : ∀ f ∈ d.pcFiles, Solid f.name) {only both : List Text}
    (honly : shown (.only side) side lines = only.map (pathIn (hashes md5 d d.visible)))
    (hboth : shown .inCommon side lines = both.map (pathIn (hashes md5 d d.visible)))
    (hmem : ∀ k ∈ only ++ both, k ∈ hashes md5 d d.visible)
    (hreported : ReportedFor side lines d other) : Unescaped d.pcFiles := by
  have hprinted : ∀ f ∈ d.pcFiles, ∃ g ∈ d.pcFiles, (printedPair md5 d g).2 = d.path f := by
    intro f hf
    have hshown : d.path f ∈ (only ++ both).map (pathIn (hashes md5 d d.visible)) := by
      obtain ⟨hcommon, hown⟩ := hreported f hf
      rw [List.map_append, ← honly, ← hboth, List.mem_append]
      by_cases htwin : HasTwin other f
      · rw [if_pos htwin] at hcommon
        exact .inr (List.count_pos_iff.mp (hcommon ▸ Nat.one_pos))
      · rw [if_neg htwin] at hown
        exact .inl (List.count_pos_iff.mp (hown ▸ Nat.one_pos))
    obtain ⟨k, hk, hpath⟩ := List.mem_map.mp hshown
    obtain ⟨g, hg, hpair⟩ := of_lookup_hashes (lookup_eq_pathIn (hmem k hk))
    exact ⟨g, (Directory.mem_visible.mp hg).1, by rw [hpair, hpath]⟩
  intro f hf hback
  exact unescaped_of_printed hsolid hprinted f hf
    (List.mem_append_right _ (List.mem_cons_of_mem _ hback))

/--
The report is complete iff no listed name has a backslash, no two files of one
directory have one content, none is hidden, and the script finds files on both
sides or on neither.
-/
theorem pathReport_complete_iff (md5 : Md5) {d1 d2 : Directory} {fuel : Nat}
    (hsolid : ∀ f ∈ d1.pcFiles ++ d2.pcFiles, Solid f.name)
    (hmd5 : Collisionless md5 (d1.pcFiles ++ d2.pcFiles))
    (hfuel : d1.files.length + d2.files.length < fuel) :
    ∃ report, pathReport md5 fuel d1 d2 = .ok report ∧
      (Reported (report.getD []) d1 d2 ↔
        (Unescaped d1.pcFiles ∧ d1.Separate) ∧ (Unescaped d2.pcFiles ∧ d2.Separate) ∧
          (d1.pcFiles = [] ↔ d2.pcFiles = [])) := by
  by_cases hnil : d1.visible = [] ∨ d2.visible = []
  · -- The script stops with an exception, which is right only if there is nothing to print.
    refine ⟨none, pathReport_of_nil hnil fuel, ?_⟩
    rw [Reported, Option.getD_none, reportedFor_nil, reportedFor_nil]
    constructor
    · rintro ⟨h1, h2⟩
      exact ⟨⟨by simp [Unescaped, h1], .of_nil h1⟩, ⟨by simp [Unescaped, h2], .of_nil h2⟩,
        iff_of_true h1 h2⟩
    · rintro ⟨⟨-, h1⟩, ⟨-, h2⟩, hboth⟩
      rw [h1.visible_eq, h2.visible_eq] at hnil
      tauto
  · obtain ⟨hne1, hne2⟩ := not_or.mp hnil
    obtain ⟨c, lines, hreport, hc, hshown⟩ := pathReport_of_ne_nil hsolid hne1 hne2 hfuel
    refine ⟨some lines, hreport, ?_⟩
    rw [Reported, Option.getD_some]
    have hleft := List.subset_append_left d1.pcFiles d2.pcFiles
    have hright := List.subset_append_right d1.pcFiles d2.pcFiles
    have hmem1 : ∀ k ∈ c.l1 ++ c.l0.map Prod.fst, k ∈ hashes md5 d1 d1.visible := fun k hk =>
      AList.mem_keys.mpr ((List.mem_append.mp hk).elim (fun hk => ((hc.mem_l1 k).mp hk).1)
        fun hk => ((hc.mem_fst k).mp hk).1)
    have hmem2 : ∀ k ∈ c.l2 ++ c.l0.map Prod.fst, k ∈ hashes md5 d2 d2.visible := fun k hk =>
      AList.mem_keys.mpr ((List.mem_append.mp hk).elim (fun hk => ((hc.mem_l2 k).mp hk).1)
        fun hk => ((hc.mem_fst k).mp hk).2)
    have hfirst := fun hun => reportedFor_iff d2 (hashes md5 d2 d2.visible)
      hun (hshown .first).1 (hshown .first).2 hc.mem_l1 hc.mem_fst
      hc.ascending_l1.nodup hc.ascending_l0.nodup
    have hsecond := fun hun => reportedFor_iff d1 (hashes md5 d1 d1.visible)
      hun (hshown .second).1 (hshown .second).2 hc.mem_l2
      (fun k => (hc.mem_fst k).trans and_comm) hc.ascending_l2.nodup hc.ascending_l0.nodup
    have hvisible : ∀ d : Directory, Unescaped d.pcFiles → Unescaped d.visible :=
      fun d hun f hf => hun f (Directory.mem_visible.mp hf).1
    constructor
    · rintro ⟨h1, h2⟩
      have hun1 := unescaped_of_reported (fun f hf => hsolid f (hleft hf)) (hshown .first).1
        (hshown .first).2 hmem1 h1
      have hun2 := unescaped_of_reported (fun f hf => hsolid f (hright hf)) (hshown .second).1
        (hshown .second).2 hmem2 h2
      have hkept1 := (hfirst (hvisible d1 hun1)).mp h1
      have hkept2 := (hsecond (hvisible d2 hun2)).mp h2
      exact ⟨⟨hun1, separate_of_kept (hvisible d1 hun1) fun f hf => (hkept1 f hf).1⟩,
        ⟨hun2, separate_of_kept (hvisible d2 hun2) fun f hf => (hkept2 f hf).1⟩,
        iff_of_false (mt Directory.visible_of_nil hne1) (mt Directory.visible_of_nil hne2)⟩
    · rintro ⟨⟨hun1, h1⟩, ⟨hun2, h2⟩, -⟩
      rw [hfirst (hvisible d1 hun1), hsecond (hvisible d2 hun2)]
      exact ⟨fun f hf => ⟨h1.kept hun1 (hmd5.mono hleft) hf,
          mem_hashes_iff_hasTwin h2 hun2 hmd5 hright (hleft hf)⟩,
        fun f hf => ⟨h2.kept hun2 (hmd5.mono hright) hf,
          mem_hashes_iff_hasTwin h1 hun1 hmd5 hleft (hright hf)⟩⟩

end Report

/-- A digest that tells the empty content from all others. -/
def emptinessMd5 : Md5 where
  digest content := List.replicate 32 (if content = [] then '0' else '1')
  length_digest _ := List.length_replicate
  hex content := by
    split <;> decide

def kleeOut0 : Directory :=
  ⟨"klee-out-0".toList, [⟨"test1.pc".toList, []⟩, ⟨"test1.ktest".toList, []⟩], by decide, by decide⟩

def kleeOut1 : Directory :=
  ⟨"klee-out-1".toList, [⟨"test1.pc".toList, [7]⟩, ⟨"test2.pc".toList, []⟩], by decide, by decide⟩

theorem pathReport_complete_iff_moved :
    ∃ report, pathReport emptinessMd5 5 kleeOut0 kleeOut1 = .ok report ∧
      Reported (report.getD []) kleeOut0 kleeOut1 := by
  obtain ⟨report, hreport, hiff⟩ := @pathReport_complete_iff emptinessMd5 kleeOut0 kleeOut1 5
    (by decide) (by unfold Collisionless; decide) (by decide)
  exact ⟨report, hreport, hiff.mpr ⟨⟨by decide, ⟨by decide, by decide⟩⟩,
    ⟨by decide, ⟨by decide, by decide⟩⟩, by decide⟩⟩

/-- Two paths of one content: the second replaces the first in the dictionary. -/
def kleeOutTwins : Directory :=
  ⟨"klee-out-2".toList, [⟨"test1.pc".toList, []⟩, ⟨"test2.pc".toList, []⟩], by decide, by decide⟩

theorem pathReport_loses_twin :
    ∃ lines, pathReport emptinessMd5 5 kleeOutTwins kleeOut1 = .ok (some lines) ∧
      lines =
        [.heading (.only .first), .heading (.only .second),
          .entry (.only .second) .second (some 1) "klee-out-1/test1.pc".toList,
          .heading .inCommon,
          .entry .inCommon .first (some 1) "klee-out-2/test2.pc".toList,
          .entry .inCommon .second none "klee-out-1/test2.pc".toList] ∧
      ¬ Reported lines kleeOutTwins kleeOut1 := by
  refine ⟨_, ?_, rfl, ?_⟩
  · decide +kernel
  · intro h
    have hfirst := (h.1 ⟨"test1.pc".toList, []⟩ (by decide)).1
    revert hfirst
    decide

end SE4VM.Scripts
