import Mathlib.Data.List.Nodup
import Mathlib.Logic.Function.Basic
import SE4VM.Foundation.Shell

/-!
# The differential replay of `compare.sh`

The script runs two executables on every `.ktest` file of a directory, each with
its own output file, and appends a case to `result.txt` when the outputs differ.
An executable is what it prints for a value of `KTEST_FILE`.
-/

namespace SE4VM.Scripts

open SE4VM.Foundation

abbrev Executable := Text → Text

/-- The directory `TESTCASE`.  Its name and its files' names are words no shell would expand. -/
structure TestDir where
  testcase : Text
  names : List Text
  plain : testcase.all pathChar = true
  plain_names : names.all (fun name => name.all fun c => pathChar c && c != '/') = true

namespace TestDir

def path (d : TestDir) (name : Text) : Text := d.testcase ++ '/' :: name

def tests (d : TestDir) : List Text := d.names.filter fun name => ".ktest".toList.isSuffixOf name

def visible (d : TestDir) : List Text := d.names.filter (matchesSuffix ".ktest".toList)

end TestDir

structure Entry where
  fname : Text
  before : Text
  after : Text
  deriving DecidableEq, Repr

def Entry.text (e : Entry) : String :=
  "TESTCASE " ++ String.ofList e.fname ++ " HAVE DIFFERENT PATH\n" ++
    "path before\n>>>>>>>>>>>>>>>>>>>>>>>>>>>>>>>>>>\n" ++ String.ofList e.before ++
    "path after\n<<<<<<<<<<<<<<<<<<<<<<<<<<<<<<<<<<<\n" ++ String.ofList e.after ++
    "==================================================\n"

/-- The files in the temporary directory `$tmp`, and `result.txt` entry by entry. -/
structure Disk where
  files : List (Text × Text)
  result : List Entry

namespace Disk

variable (s : Disk)

def names : List Text := s.files.map Prod.fst

def content (file : Text) : Option Text := (s.files.find? (·.1 = file)).map Prod.snd

def write (file content : Text) : Disk :=
  { s with files := (file, content) :: s.files.filter (·.1 ≠ file) }

@[simp] theorem content_write_self (file content : Text) :
    (s.write file content).content file = some content := by
  simp [Disk.content, write]

theorem content_write_of_ne {file other : Text} (h : other ≠ file) (content : Text) :
    (s.write file content).content other = s.content other := by
  rw [Disk.content, write, List.find?_cons_of_neg (by simpa using h.symm), List.find?_filter,
    Disk.content]
  congr 2
  funext entry
  by_cases hother : entry.1 = other <;> simp [hother, h]

@[simp] theorem result_write (file content : Text) :
    (s.write file content).result = s.result := rfl

/-- The words for `$tmp$fname"suffix"`, which stands without quotes wherever it is used. -/
def expand (fname suffix : Text) : List Text :=
  if fname = ['*'] then glob suffix s.names else [fname ++ suffix]

/-- `&> word`; a word that expands to several is an ambiguous redirect. -/
def redirect (ws : List Text) (output : Text) : Disk :=
  match ws with
  | [file] => s.write file output
  | _ => s

/-- `diff ws`: true of two files that exist and have the same content. -/
def same (ws : List Text) : Bool :=
  match ws with
  | [file, other] => (s.content file).isSome && s.content file == s.content other
  | _ => false

/-- `cat ws`. -/
def cat (ws : List Text) : Text := ws.flatMap fun file => (s.content file).getD []

end Disk

/-- `${f##*\/}`. -/
def afterLastSlash (f : Text) : Text := (f.reverse.takeWhile (· ≠ '/')).reverse

/-- `${fname%%\.*}`, which cuts at the first dot. -/
def beforeFirstDot (name : Text) : Text := name.takeWhile (· ≠ '.')

def fname (f : Text) : Text := beforeFirstDot (afterLastSlash f)

/-- `KTEST_FILE=f`: without a dollar sign the value is the letter, not the loop variable. -/
def ktestFile : Text := ['f']

section Script

variable (exe1 exe2 : Executable)

def replayCase (s : Disk) (f : Text) : Disk :=
  let out1 := ".1.out".toList
  let out2 := ".2.out".toList
  let s := s.redirect (s.expand (fname f) out1) (exe1 ktestFile)
  let s := s.redirect (s.expand (fname f) out2) (exe2 ktestFile)
  if s.same (s.expand (fname f) out1 ++ s.expand (fname f) out2) then s
  else
    { s with result := s.result ++
        [⟨fname f, s.cat (s.expand (fname f) out1), s.cat (s.expand (fname f) out2)⟩] }

def replay (d : TestDir) (s : Disk) : Disk :=
  ((glob ".ktest".toList d.names).map d.path).foldl (replayCase exe1 exe2) s

end Script

/-! ## What a run appends -/

section Run

variable {exe1 exe2 : Executable}

def entriesFor (exe1 exe2 : Executable) (fs : List Text) : List Entry :=
  if exe1 ktestFile = exe2 ktestFile then []
  else fs.map fun f => ⟨fname f, exe1 ktestFile, exe2 ktestFile⟩

theorem replayCase_of_expand {s : Disk} {f : Text}
    (hexpand : ∀ suffix ∈ [".1.out".toList, ".2.out".toList], ∀ s' ∈
      [s, s.write (fname f ++ ".1.out".toList) (exe1 ktestFile),
        (s.write (fname f ++ ".1.out".toList) (exe1 ktestFile)).write
          (fname f ++ ".2.out".toList) (exe2 ktestFile)],
      s'.expand (fname f) suffix = [fname f ++ suffix]) :
    (replayCase exe1 exe2 s f).result = s.result ++ entriesFor exe1 exe2 [f] := by
  have hne : fname f ++ ".1.out".toList ≠ fname f ++ ".2.out".toList := by
    rw [ne_eq, List.append_cancel_left_eq]
    decide
  have h1 := hexpand _ (.head _)
  have h2 := hexpand _ (.tail _ (.head _))
  simp only [replayCase, Disk.redirect, h1 s (.head _), h2 _ (.tail _ (.head _)),
    h1 _ (.tail _ (.tail _ (.head _))), h2 _ (.tail _ (.tail _ (.head _))),
    List.singleton_append, Disk.same, Disk.cat, List.flatMap_singleton,
    Disk.content_write_of_ne _ hne, Disk.content_write_self, Option.isSome_some,
    Option.getD_some, Bool.true_and, beq_iff_eq, Option.some.injEq, Disk.result_write,
    entriesFor]
  split_ifs
  · rw [List.append_nil, Disk.result_write, Disk.result_write]
  · rfl

theorem replayCase_result (s : Disk) {f : Text} (hf : fname f ≠ ['*']) :
    (replayCase exe1 exe2 s f).result = s.result ++ entriesFor exe1 exe2 [f] :=
  replayCase_of_expand fun _ _ _ _ => if_neg hf

/-- In an empty directory the pattern stands for itself until it is the name of a file. -/
theorem replayCase_result_star (result : List Entry) {f : Text} (hf : fname f = ['*']) :
    (replayCase exe1 exe2 ⟨[], result⟩ f).result = result ++ entriesFor exe1 exe2 [f] := by
  refine replayCase_of_expand fun suffix hsuffix s' hs' => ?_
  rw [Disk.expand, if_pos hf, hf] at *
  simp only [List.mem_cons, List.not_mem_nil, or_false] at hsuffix hs'
  rcases hsuffix with rfl | rfl <;> rcases hs' with rfl | rfl | rfl <;> rfl

theorem entriesFor_cons (f : Text) (fs : List Text) :
    entriesFor exe1 exe2 (f :: fs) = entriesFor exe1 exe2 [f] ++ entriesFor exe1 exe2 fs := by
  unfold entriesFor
  split <;> rfl

theorem foldl_replayCase_result (s : Disk) {fs : List Text} (hfs : ∀ f ∈ fs, fname f ≠ ['*']) :
    (fs.foldl (replayCase exe1 exe2) s).result = s.result ++ entriesFor exe1 exe2 fs := by
  induction fs generalizing s with
  | nil => simp [entriesFor]
  | cons f fs ih =>
      obtain ⟨hf, hfs⟩ := List.forall_mem_cons.mp hfs
      rw [List.foldl_cons, ih _ hfs, replayCase_result s hf, entriesFor_cons f fs,
        List.append_assoc]

end Run

/-! ## Case names -/

theorem afterLastSlash_path {d : TestDir} {name : Text} (h : '/' ∉ name) :
    afterLastSlash (d.path name) = name := by
  have hall : ∀ c ∈ name.reverse, decide (c ≠ '/') = true := fun c hc =>
    decide_eq_true fun he => h (he ▸ List.mem_reverse.mp hc)
  rw [afterLastSlash, TestDir.path, List.reverse_append, List.reverse_cons, List.append_assoc,
    List.takeWhile_append_of_pos hall]
  simp

namespace TestDir

variable {d : TestDir} {name : Text}

theorem fname_path (h : name ∈ d.names) : fname (d.path name) = beforeFirstDot name := by
  have hslash : '/' ∉ name := fun hc =>
    absurd (List.all_eq_true.mp (List.all_eq_true.mp d.plain_names name h) _ hc) (by decide)
  rw [fname, afterLastSlash_path hslash]

theorem mem_visible : name ∈ d.visible ↔ name ∈ d.tests ∧ hiddenName name = false := by
  simp only [visible, tests, matchesSuffix, List.mem_filter, Bool.and_eq_true, Bool.not_eq_true']
  tauto

theorem tests_subset : d.tests ⊆ d.names := List.filter_sublist.subset

theorem fname_of_hidden (h : name ∈ d.names) (hhidden : hiddenName name = true) :
    fname (d.path name) = [] := by
  rw [fname_path h]
  cases name with
  | nil => rfl
  | cons c name =>
      have hc : c = '.' := by simpa [hiddenName] using hhidden
      subst hc
      rfl

end TestDir

theorem TestDir.fname_ne_star {d : TestDir} {name : Text} (h : name ∈ d.names) :
    fname (d.path name) ≠ ['*'] := by
  intro hstar
  have hmem : '*' ∈ name := by
    have hbefore : '*' ∈ beforeFirstDot name := by
      rw [← TestDir.fname_path h, hstar]
      exact List.mem_singleton_self _
    exact (List.takeWhile_sublist _).subset hbefore
  exact absurd (List.all_eq_true.mp (List.all_eq_true.mp d.plain_names name h) _ hmem)
    (by decide)

theorem fname_pattern (d : TestDir) : fname (d.path ('*' :: ".ktest".toList)) = ['*'] := by
  rw [fname, afterLastSlash_path (by decide)]
  rfl

theorem replay_result {exe1 exe2 : Executable} (d : TestDir) (result : List Entry) :
    (replay exe1 exe2 d ⟨[], result⟩).result =
      result ++ entriesFor exe1 exe2 ((glob ".ktest".toList d.names).map d.path) := by
  by_cases hnil : d.visible = []
  · rw [replay, glob_of_nil hnil]
    exact replayCase_result_star result (fname_pattern d)
  · refine foldl_replayCase_result _ fun f hf => ?_
    rw [glob_of_ne_nil hnil] at hf
    obtain ⟨name, hname, rfl⟩ := List.mem_map.mp hf
    exact TestDir.fname_ne_star (List.filter_sublist.subset hname)

/-! ## Soundness and completeness of the report -/

def Exact (exe1 exe2 : Executable) (d : TestDir) (entries : List Entry) : Prop :=
  ∀ name, name ∈ entries.map Entry.fname ↔
    ∃ t ∈ d.tests, fname (d.path t) = name ∧ exe1 (d.path t) ≠ exe2 (d.path t)

section Exact

variable {exe1 exe2 : Executable} {d : TestDir}

theorem exact_nil :
    Exact exe1 exe2 d [] ↔ ∀ t ∈ d.tests, exe1 (d.path t) = exe2 (d.path t) := by
  constructor
  · intro h t ht
    by_contra hne
    have hmem := (h (fname (d.path t))).mpr ⟨t, ht, rfl, hne⟩
    cases hmem
  · intro h name
    refine iff_of_false List.not_mem_nil ?_
    rintro ⟨t, ht, -, hne⟩
    exact hne (h t ht)

theorem map_fname_entriesFor (h : exe1 ktestFile ≠ exe2 ktestFile) (fs : List Text) :
    (entriesFor exe1 exe2 fs).map Entry.fname = fs.map fname := by
  rw [entriesFor, if_neg h, List.map_map]
  rfl

theorem not_exact_of_nil (h : exe1 ktestFile ≠ exe2 ktestFile) (hnil : d.visible = []) :
    ¬ Exact exe1 exe2 d
      (entriesFor exe1 exe2 ((glob ".ktest".toList d.names).map d.path)) := by
  intro hexact
  have hreported := (hexact ['*']).mp (by
    rw [map_fname_entriesFor h, glob_of_nil hnil, List.map_map, List.map_singleton,
      Function.comp, fname_pattern]
    exact List.mem_singleton_self _)
  obtain ⟨t, ht, hname, -⟩ := hreported
  have hhidden : hiddenName t = true := by
    by_contra hvis
    have hin := TestDir.mem_visible.mpr ⟨ht, eq_false_of_ne_true hvis⟩
    rw [hnil] at hin
    cases hin
  rw [TestDir.fname_of_hidden (TestDir.tests_subset ht) hhidden] at hname
  cases hname

theorem exact_of_ne_nil (h : exe1 ktestFile ≠ exe2 ktestFile) (hne : d.visible ≠ [])
    (hnames : (d.tests.map fun t => fname (d.path t)).Nodup) :
    Exact exe1 exe2 d (entriesFor exe1 exe2 ((glob ".ktest".toList d.names).map d.path)) ↔
      ∀ t ∈ d.tests, (exe1 (d.path t) ≠ exe2 (d.path t) ↔ hiddenName t = false) := by
  have hmem : ∀ name, name ∈ (entriesFor exe1 exe2
      ((glob ".ktest".toList d.names).map d.path)).map Entry.fname ↔
        ∃ t ∈ d.visible, fname (d.path t) = name := by
    intro name
    rw [map_fname_entriesFor h, glob_of_ne_nil hne, List.map_map, List.mem_map]
    rfl
  -- Distinct case names let a reported name stand for one test.
  have hinj : ∀ t ∈ d.tests, ∀ u ∈ d.tests, fname (d.path t) = fname (d.path u) → t = u :=
    fun t ht u hu heq => List.inj_on_of_nodup_map hnames ht hu heq
  constructor
  · intro hexact t ht
    have hname := (hmem _).symm.trans (hexact (fname (d.path t)))
    constructor
    · intro hdiff
      obtain ⟨u, hu, heq⟩ := hname.mpr ⟨t, ht, rfl, hdiff⟩
      rw [← hinj u (TestDir.mem_visible.mp hu).1 t ht heq]
      exact (TestDir.mem_visible.mp hu).2
    · intro hvis
      obtain ⟨u, hu, heq, hdiff⟩ := hname.mp ⟨t, TestDir.mem_visible.mpr ⟨ht, hvis⟩, rfl⟩
      rwa [hinj u hu t ht heq] at hdiff
  · intro hall name
    rw [hmem]
    constructor
    · rintro ⟨t, ht, heq⟩
      obtain ⟨htest, hvis⟩ := TestDir.mem_visible.mp ht
      exact ⟨t, htest, heq, (hall t htest).mpr hvis⟩
    · rintro ⟨t, ht, heq, hdiff⟩
      exact ⟨t, TestDir.mem_visible.mpr ⟨ht, (hall t ht).mp hdiff⟩, heq⟩

end Exact

/--
A run that starts in an empty temporary directory reports the tests on which the
executables differ iff they differ on the visible tests just when they differ for
the value `f`.
-/
theorem replay_exact_iff (exe1 exe2 : Executable) (d : TestDir) (result : List Entry)
    (hnames : (d.tests.map fun t => fname (d.path t)).Nodup) :
    ∃ entries, (replay exe1 exe2 d ⟨[], result⟩).result = result ++ entries ∧
      (Exact exe1 exe2 d entries ↔
        (d.visible = [] → exe1 ktestFile = exe2 ktestFile) ∧
        ∀ t ∈ d.tests, (exe1 (d.path t) ≠ exe2 (d.path t) ↔
          hiddenName t = false ∧ exe1 ktestFile ≠ exe2 ktestFile)) := by
  refine ⟨_, replay_result d result, ?_⟩
  by_cases h : exe1 ktestFile = exe2 ktestFile
  · rw [entriesFor, if_pos h, exact_nil]
    simp [h]
  · simp only [h, ne_eq, not_false_eq_true, and_true]
    by_cases hnil : d.visible = []
    · exact iff_of_false (not_exact_of_nil h hnil) fun hall => hall.1 hnil
    · rw [exact_of_ne_nil h hnil hnames]
      simp [hnil]

def twoTests : TestDir :=
  ⟨"/tests".toList, ["test1.ktest".toList, "test2.ktest".toList, "info".toList],
    by decide, by decide⟩

theorem replay_exact_iff_constant :
    ∃ entries, (replay (fun _ => ['0']) (fun _ => ['1']) twoTests ⟨[], []⟩).result =
        entries ∧
      Exact (fun _ => ['0']) (fun _ => ['1']) twoTests entries := by
  obtain ⟨entries, hresult, hiff⟩ := replay_exact_iff (fun _ => ['0']) (fun _ => ['1'])
    twoTests [] (by decide)
  exact ⟨entries, hresult, hiff.mpr (by decide)⟩

/-- The executables differ on the first test only, and nothing is reported. -/
theorem replay_misses_difference :
    let exe1 : Executable := fun _ => []
    let exe2 : Executable := fun f => if f = twoTests.path "test1.ktest".toList then ['!'] else []
    exe1 (twoTests.path "test1.ktest".toList) ≠ exe2 (twoTests.path "test1.ktest".toList) ∧
      (replay exe1 exe2 twoTests ⟨[], []⟩).result = [] := by
  refine ⟨by decide, ?_⟩
  rw [replay_result]
  decide

end SE4VM.Scripts
