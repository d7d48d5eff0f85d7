import Pixel845.Datatop.Search
import Pixel845.Lemmas.DatatopLines
import Pixel845.Lemmas.DatatopStore

/-!
# The scan and what fails in it

A directory that cannot be opened is left out, and nothing else changes. An entry whose `stat` fails ends the call: the rest of
its directory is not scanned, and the working directory is not set back, so that what the callers look up next is looked up in the
wrong place. Where no `stat` fails, and each working directory fits its buffer, the scan registers each file once and comes back
(`scan_survives`).
-/

namespace Pixel845.Datatop

/-! ## What should hold -/

/-- A regular file below a directory: the place of its own directory, its name, and its content. -/
inductive FileAt : Entries → Place → List UInt8 → List UInt8 → Prop
  | here (name content : List UInt8) (rest : Entries) : FileAt (.file name content rest) [] name content
  | behindFile {rest : Entries} {place : Place} {name content : List UInt8} (n c : List UInt8)
      (h : FileAt rest place name content) : FileAt (.file n c rest) place name content
  | behindDir {rest : Entries} {place : Place} {name content : List UInt8} (n : List UInt8) (entries : Entries)
      (h : FileAt rest place name content) : FileAt (.dir n entries rest) place name content
  | inside {entries : Entries} {place : Place} {name content : List UInt8} (n : List UInt8) (rest : Entries)
      (h : FileAt entries place name content) : FileAt (.dir n entries rest) (n :: place) name content

/-- The names of a tree are those of a file system: they have no slash, those of a directory differ, and `.` and `..` are
directories that are not part of the tree. -/
def Entries.Proper : Entries → Prop
  | .nil => True
  | .file name _ rest => 47 ∉ name ∧ ¬isDots name ∧ name ∉ rest.names ∧ rest.Proper
  | .dir name entries rest => 47 ∉ name ∧ (isDots name → entries = .nil) ∧ name ∉ rest.names ∧ entries.Proper ∧ rest.Proper

/-- The content has a first line that is not empty. -/
def HasFirstLine (content : List UInt8) : Prop := content ≠ [] ∧ content.head? ≠ some 10

/-- A file that the scan should register. -/
structure Eligible (w : Scan) (place : Place) (name content : List UInt8) : Prop where
  fileAt : FileAt w.root place name content
  opened : ∀ p, p <+: place → w.openFails p = false
  stat : w.statFails place name = false
  firstLine : HasFirstLine content

/-- How often a file is registered. -/
def ScanState.timesRegistered (s : ScanState) (file : List UInt8) : Nat := (s.registered.map Gatherer.file).count file

/-- After a scan the working directory is the one before, and each file that should be is registered exactly once. -/
structure Survives (w : Scan) (s final : ScanState) : Prop where
  cwd : final.cwd = s.cwd
  registered : ∀ place name content, Eligible w place name content →
    final.timesRegistered (w.dirPath place ++ name) = s.timesRegistered (w.dirPath place ++ name) + 1

/-- In a directory and in those below it that can be opened, no `stat` fails, and if there are any below, the path of the working
directory fits the buffer. -/
def Entries.Calm (w : Scan) (place : Place) : Entries → Prop
  | .nil => True
  | .file name _ rest => w.statFails place name = false ∧ rest.Calm w place
  | .dir name entries rest =>
    w.statFails place name = false ∧
      (isDots name ∨ (¬w.getcwdFails (.inside place) ∧
        (w.openFails (place ++ [name]) = true ∨ entries.Calm w (place ++ [name])))) ∧
      rest.Calm w place

/-- The same, but for a `stat` in the directory itself. -/
def Entries.CalmBelow (w : Scan) (place : Place) : Entries → Prop
  | .nil => True
  | .file _ _ rest => rest.CalmBelow w place
  | .dir name entries rest =>
    (isDots name ∨ (¬w.getcwdFails (.inside place) ∧ (w.openFails (place ++ [name]) = true ∨ entries.Calm w (place ++ [name])))) ∧
      rest.CalmBelow w place

/-- Nothing fails in a scan but `opendir`. -/
def Scan.Calm (w : Scan) (s : ScanState) : Prop := ¬w.getcwdFails s.cwd ∧ (w.openFails [] = true ∨ w.root.Calm w [])

namespace ScanAux

variable {w : Scan} {s : ScanState} {place : Place} {name content : List UInt8} {entries : Entries}

/-! ### What is registered -/

/-- A file has values exactly if its first line is not empty. -/
theorem getNumberOfValues_ne_zero (content : List UInt8) (rest line : Image) :
    getNumberOfValues content rest line ≠ 0 ↔ HasFirstLine content := by
  unfold getNumberOfValues HasFirstLine
  cases content with
  | nil => simp
  | cons c cs =>
    have hfirst : readFile (c :: cs) genSize rest 0 = c := by
      have hhas : (readFile (c :: cs) genSize rest).Has 0 ((c :: cs).take genSize) := Image.has_write _ _ _
      exact (Image.has_cons.mp hhas).1
    have hcut : cutLine (readFile (c :: cs) genSize rest) genLine genSize 0 =
        some (if c = 10 then [] else c :: (((readFile (c :: cs) genSize rest).read 1 (genSize - 1)).take (genLine - 2)).takeWhile
            (· != 10)) := by
      unfold cutLine
      rw [if_neg (by decide), show genSize - 0 = genSize - 1 + 1 from rfl, read_succ, hfirst,
        show genLine - 1 = genLine - 2 + 1 from rfl, List.take_succ_cons, List.takeWhile_cons]
      by_cases h : c = 10 <;> simp [h]
    rw [if_neg (List.cons_ne_nil c cs), readLine_run, hcut]
    by_cases h : c = 10
    · simp [h, lineLen]
    · simp [h, lineLen]

/-- What `dpg_construction` constructs for a file of a directory. -/
def constructed (w : Scan) (place : Place) (name content : List UInt8) : List Gatherer :=
  (dpgConstruction (w.dirPath place) name content (w.leftover place name).rest (w.leftover place name).line
    (w.leftover place name).priv (w.leftover place name).dataPoints).toList

/-- A file registers what is constructed for it. -/
theorem construct_eq (s : ScanState) (w : Scan) (place : Place) (name content : List UInt8) :
    s.construct w place name content = { s with registered := s.registered ++ constructed w place name content } := rfl

/-- What a scan without a failing `stat` registers, in this order. -/
def found (w : Scan) (place : Place) : Entries → List Gatherer
  | .nil => []
  | .file name content rest => constructed w place name content ++ found w place rest
  | .dir name entries rest =>
    (if isDots name ∨ w.openFails (place ++ [name]) = true then [] else found w (place ++ [name]) entries) ++ found w place rest

/-! ### The loop -/

/-- An entry is found in its directory. -/
theorem at?_concat (entries : Entries) (place : Place) (name : List UInt8) :
    entries.at? (place ++ [name]) = (entries.at? place).bind fun e => e.at? [name] := by
  induction place generalizing entries with
  | nil => rfl
  | cons n place ih =>
    rw [List.cons_append, Entries.at?, Entries.at?]
    split
    · exact ih _
    · rfl

/-- The entries of a directory that was found by its name. -/
theorem at?_of_find {all : Entries} (hat : w.root.at? place = some all) (hfind : all.find name = some (.dir, entries)) :
    w.root.at? (place ++ [name]) = some entries := by
  rw [at?_concat, hat, Option.bind_some, Entries.at?, hfind]
  rfl

/-- `stat` in the working directory that the entry is read from. -/
theorem stat_inside {all : Entries} (hat : w.root.at? place = some all) (hok : w.statFails place name = false) :
    w.stat (.inside place) name = if isDots name then some .dir else (all.find name).map Prod.fst := by
  unfold Scan.stat
  simp only [hok, Bool.false_eq_true, if_false, hat, Option.bind_some]

/-- What is found in a directory that is an entry itself. -/
def foundBelow (w : Scan) (place : Place) (n : List UInt8) (below : Entries) : List Gatherer :=
  if isDots n ∨ w.openFails (place ++ [n]) = true then [] else found w (place ++ [n]) below

/-- The first entry is found, and the others behind it. -/
theorem find_rest {all rest : Entries} {n : List UInt8} (hnew : n ∉ rest.names) {head : FileKind × Entries}
    (hfind : ∀ m ∈ n :: rest.names, all.find m = if n = m then some head else rest.find m) :
    all.find n = some head ∧ ∀ m ∈ rest.names, all.find m = rest.find m := by
  refine ⟨?_, ?_⟩
  · rw [hfind n List.mem_cons_self, if_pos rfl]
  · intro m hm
    have hne : n ≠ m := fun h => hnew (h ▸ hm)
    rw [hfind m (List.mem_cons_of_mem n hm), if_neg hne]

/-- A round of the loop on a file. -/
theorem searchLoop_file {all rest : Entries} (hat : w.root.at? place = some all) (hhere : all.find name = some (.reg, .nil))
    (hdots : ¬isDots name) (hok : w.statFails place name = false) (cwd : Cwd) (hcwd : s.cwd = .inside place) :
    searchLoop w place cwd (.file name content rest) s = searchLoop w place cwd rest (s.construct w place name content) := by
  have hstat : w.stat s.cwd name = some .reg := by
    rw [hcwd, stat_inside hat hok, if_neg hdots, hhere]
    rfl
  rw [searchLoop, hstat]
  simp only [hdots, if_false]

/-- A round of the loop on a directory whose own loop, if it comes to that, registers what there is. -/
theorem searchLoop_dir {all below rest : Entries} (hat : w.root.at? place = some all) (hhere : all.find name = some (.dir, below))
    (hok : w.statFails place name = false)
    (hdown : isDots name ∨ (¬w.getcwdFails (.inside place) ∧ (w.openFails (place ++ [name]) = true ∨
      searchLoop w (place ++ [name]) (.inside place) below { s with cwd := .inside (place ++ [name]) } =
        (dirSuccess, ⟨.inside place, s.registered ++ found w (place ++ [name]) below⟩))))
    (cwd : Cwd) (hcwd : s.cwd = .inside place) :
    searchLoop w place cwd (.dir name below rest) s =
      searchLoop w place cwd rest ⟨.inside place, s.registered ++ foundBelow w place name below⟩ := by
  have hstat : w.stat s.cwd name = some .dir := by
    rw [hcwd, stat_inside hat hok, hhere]
    split <;> rfl
  have hsame : s = ⟨.inside place, s.registered ++ []⟩ := by
    rw [List.append_nil, ← hcwd]
  rw [searchLoop, hstat, foundBelow]
  by_cases hdots : isDots name
  · simp only [hdots, true_or, if_true]
    rw [← hsame]
  · obtain ⟨hgetcwd, hopen⟩ := hdown.resolve_left hdots
    simp only [hdots, false_or, if_false]
    unfold searchWith
    rw [hcwd, if_neg hgetcwd]
    by_cases hfails : w.openFails (place ++ [name]) = true
    · rw [if_pos hfails, if_pos hfails, ← hsame]
    · rw [if_neg hfails, if_neg hfails]
      simp only [hopen.resolve_left hfails]

/-- Where no `stat` fails, the loop registers what it finds and sets the working directory back. -/
theorem searchLoop_calm {all : Entries} (hat : w.root.at? place = some all)
    (hfind : ∀ n ∈ entries.names, all.find n = entries.find n) (hproper : entries.Proper) (hcalm : entries.Calm w place)
    (cwd : Cwd) (hcwd : s.cwd = .inside place) :
    searchLoop w place cwd entries s = (dirSuccess, ⟨cwd, s.registered ++ found w place entries⟩) := by
  induction entries generalizing place s all cwd with
  | nil => rw [searchLoop, found, List.append_nil]
  | file n c rest ih =>
    obtain ⟨-, hdots, hnew, hproper⟩ := hproper
    obtain ⟨hok, hcalm⟩ := hcalm
    obtain ⟨hhere, hrest⟩ := find_rest hnew hfind
    rw [searchLoop_file hat hhere hdots hok cwd hcwd, ih (s := s.construct w place n c) hat hrest hproper hcalm cwd hcwd,
      construct_eq, found, List.append_assoc]
  | dir n below rest ihbelow ih =>
    obtain ⟨-, -, hnew, hbelow, hproper⟩ := hproper
    obtain ⟨hok, hdown, hcalm⟩ := hcalm
    obtain ⟨hhere, hrest⟩ := find_rest hnew hfind
    have hdeep := hdown.imp_right (And.imp_right (Or.imp_right fun h =>
      @ihbelow { s with cwd := .inside (place ++ [n]) } _ _ (at?_of_find hat hhere) (fun _ _ => rfl) hbelow h
        (.inside place) rfl))
    rw [searchLoop_dir hat hhere hok hdeep cwd hcwd, ih hat hrest hproper hcalm cwd rfl, found, ← List.append_assoc]
    rfl

/-- A failure that is not the first one is among the others. -/
theorem fails_rest {rest : Entries} {n : List UInt8} (hfails : ∃ m ∈ n :: rest.names, w.statFails place m = true)
    (hok : ¬w.statFails place n = true) : ∃ m ∈ rest.names, w.statFails place m = true := by
  obtain ⟨m, hm, hm'⟩ := hfails
  rcases List.mem_cons.mp hm with rfl | hm
  · exact absurd hm' hok
  · exact ⟨m, hm, hm'⟩

/-- Where a `stat` fails in the directory itself, the loop leaves the working directory there. -/
theorem searchLoop_fails {all : Entries} (hat : w.root.at? place = some all)
    (hfind : ∀ n ∈ entries.names, all.find n = entries.find n) (hproper : entries.Proper) (hcalm : entries.CalmBelow w place)
    (hfails : ∃ n ∈ entries.names, w.statFails place n = true) (cwd : Cwd)
    (hcwd : s.cwd = .inside place) : (searchLoop w place cwd entries s).2.cwd = .inside place := by
  have hstuck : ∀ n, w.statFails place n = true → w.stat (.inside place) n = none := by
    intro n hn
    rw [Scan.stat]
    simp only [hn, if_true]
  induction entries generalizing s with
  | nil =>
    obtain ⟨n, hn, -⟩ := hfails
    exact absurd hn List.not_mem_nil
  | file n c rest ih =>
    obtain ⟨-, hdots, hnew, hproper⟩ := hproper
    obtain ⟨hhere, hrest⟩ := find_rest hnew hfind
    by_cases hok : w.statFails place n = true
    · rw [searchLoop, hcwd, hstuck n hok]
      exact hcwd
    · rw [searchLoop_file hat hhere hdots (Bool.eq_false_iff.mpr hok) cwd hcwd]
      exact ih hrest hproper hcalm (fails_rest hfails hok) hcwd
  | dir n below rest _ ih =>
    obtain ⟨-, -, hnew, hbelow, hproper⟩ := hproper
    obtain ⟨hdown, hcalm⟩ := hcalm
    obtain ⟨hhere, hrest⟩ := find_rest hnew hfind
    by_cases hok : w.statFails place n = true
    · rw [searchLoop, hcwd, hstuck n hok]
      exact hcwd
    · have hdeep := hdown.imp_right (And.imp_right (Or.imp_right fun h =>
        @searchLoop_calm w { s with cwd := .inside (place ++ [n]) } _ _ _ (at?_of_find hat hhere) (fun _ _ => rfl) hbelow h
          (.inside place) rfl))
      rw [searchLoop_dir hat hhere (Bool.eq_false_iff.mpr hok) hdeep cwd hcwd]
      exact ih hrest hproper hcalm (fails_rest hfails hok) rfl

/-- Where all is calm below, a directory is calm or one of its own entries fails. -/
theorem calm_or_fails (h : entries.CalmBelow w place) :
    entries.Calm w place ∨ ∃ n ∈ entries.names, w.statFails place n = true := by
  induction entries with
  | nil => exact .inl trivial
  | file n c rest ih =>
    by_cases hok : w.statFails place n = true
    · exact .inr ⟨n, List.mem_cons_self, hok⟩
    · refine (ih h).imp (fun hcalm => ⟨Bool.eq_false_iff.mpr hok, hcalm⟩) fun ⟨m, hm, hfails⟩ => ?_
      exact ⟨m, List.mem_cons_of_mem n hm, hfails⟩
  | dir n below rest _ ih =>
    by_cases hok : w.statFails place n = true
    · exact .inr ⟨n, List.mem_cons_self, hok⟩
    · refine (ih h.2).imp (fun hcalm => ⟨Bool.eq_false_iff.mpr hok, h.1, hcalm⟩) fun ⟨m, hm, hfails⟩ => ?_
      exact ⟨m, List.mem_cons_of_mem n hm, hfails⟩

/-! ### Paths -/

/-- The path of a directory below another. -/
theorem dirPath_append (w : Scan) (place below : Place) :
    w.dirPath (place ++ below) = w.dirPath place ++ below.flatMap fun name => name ++ [47] := by
  unfold Scan.dirPath
  rw [List.flatMap_append, List.append_assoc]

/-- The path leads through an entry of the directory, or is that of the entry. -/
def Through (w : Scan) (place : Place) (name path : List UInt8) : Prop :=
  ∃ t : List UInt8, (t = [] ∨ t.head? = some 47) ∧ path = w.dirPath place ++ (name ++ t)

/-- A file is reached through its own entry. -/
theorem through_own (w : Scan) (place : Place) (name : List UInt8) : Through w place name (w.dirPath place ++ name) :=
  ⟨[], .inl rfl, by rw [List.append_nil]⟩

/-- A file below an entry is reached through it. -/
theorem through_below (w : Scan) (place : Place) (name t : List UInt8) :
    Through w place name (w.dirPath (place ++ [name]) ++ t) := by
  refine ⟨47 :: t, .inr rfl, ?_⟩
  rw [dirPath_append]
  simp

/-- A path leads through one entry. -/
theorem Through.eq {n n' path : List UInt8} (h : Through w place n path) (h' : Through w place n' path) (hn : 47 ∉ n)
    (hn' : 47 ∉ n') : n = n' := by
  have hcut : ∀ m t : List UInt8, 47 ∉ m → (t = [] ∨ t.head? = some 47) → (m ++ t).takeWhile (· != 47) = m := by
    intro m t hm ht
    have hall : ∀ c ∈ m, (c != 47) = true := by
      intro c hc
      have hne : c ≠ 47 := fun h => hm (h ▸ hc)
      simp [hne]
    rw [List.takeWhile_append_of_pos hall]
    rcases ht with rfl | ht
    · simp
    · obtain ⟨t, rfl⟩ := List.head?_eq_some_iff.mp ht
      simp
  obtain ⟨t, ht, hpath⟩ := h
  obtain ⟨t', ht', hpath'⟩ := h'
  have heq : n ++ t = n' ++ t' := List.append_cancel_left (hpath.symm.trans hpath')
  rw [← hcut n t hn ht, heq, hcut n' t' hn' ht']

/-- What is constructed for a file bears its path. -/
theorem constructed_file {g : Gatherer} (hg : g ∈ constructed w place name content) : g.file = w.dirPath place ++ name := by
  unfold constructed dpgConstruction at hg
  simp only at hg
  split at hg
  · rw [List.mem_singleton.mp hg]
  · exact absurd hg List.not_mem_nil

/-- What is found below a directory has its path. -/
theorem found_path {g : Gatherer} (hg : g ∈ found w place entries) : ∃ t, g.file = w.dirPath place ++ t := by
  induction entries generalizing place with
  | nil => exact absurd hg List.not_mem_nil
  | file n c rest ih =>
    rcases List.mem_append.mp hg with hg | hg
    · exact ⟨n, constructed_file hg⟩
    · exact ih hg
  | dir n below rest ihbelow ih =>
    rcases List.mem_append.mp hg with hg | hg
    · split at hg
      · exact absurd hg List.not_mem_nil
      · obtain ⟨t, ht⟩ := ihbelow hg
        rw [dirPath_append, List.append_assoc] at ht
        exact ⟨_, ht⟩
    · exact ih hg

/-- What is found in a directory is found through one of its entries. -/
theorem found_through {g : Gatherer} (hproper : entries.Proper) (hg : g ∈ found w place entries) :
    ∃ n ∈ entries.names, 47 ∉ n ∧ Through w place n g.file := by
  induction entries with
  | nil => exact absurd hg List.not_mem_nil
  | file n c rest ih =>
    obtain ⟨hn, -, -, hproper⟩ := hproper
    rcases List.mem_append.mp hg with hg | hg
    · rw [constructed_file hg]
      exact ⟨n, List.mem_cons_self, hn, through_own w place n⟩
    · obtain ⟨m, hm, hthrough⟩ := ih hproper hg
      exact ⟨m, List.mem_cons_of_mem n hm, hthrough⟩
  | dir n below rest _ ih =>
    obtain ⟨hn, -, -, -, hproper⟩ := hproper
    rcases List.mem_append.mp hg with hg | hg
    · split at hg
      · exact absurd hg List.not_mem_nil
      · obtain ⟨t, ht⟩ := found_path hg
        rw [ht]
        exact ⟨n, List.mem_cons_self, hn, through_below w place n t⟩
    · obtain ⟨m, hm, hthrough⟩ := ih hproper hg
      exact ⟨m, List.mem_cons_of_mem n hm, hthrough⟩

/-- A file below a directory is reached through one of its entries. -/
theorem fileAt_through {below : Place} (h : FileAt entries below name content) (hproper : entries.Proper) (w : Scan)
    (place : Place) : ∃ n ∈ entries.names, 47 ∉ n ∧ Through w place n (w.dirPath (place ++ below) ++ name) := by
  induction h with
  | here name content rest =>
    rw [List.append_nil]
    exact ⟨name, List.mem_cons_self, hproper.1, through_own w place name⟩
  | behindFile n c _ ih =>
    obtain ⟨m, hm, hthrough⟩ := ih hproper.2.2.2
    exact ⟨m, List.mem_cons_of_mem n hm, hthrough⟩
  | behindDir n entries _ ih =>
    obtain ⟨m, hm, hthrough⟩ := ih hproper.2.2.2.2
    exact ⟨m, List.mem_cons_of_mem n hm, hthrough⟩
  | inside n rest h =>
    refine ⟨n, List.mem_cons_self, hproper.1, ?_⟩
    rw [List.append_cons, dirPath_append, List.append_assoc]
    exact through_below w place n _

/-- What is found below an entry is reached through it. -/
theorem foundBelow_through {g : Gatherer} {n : List UInt8} {below : Entries} (hg : g ∈ foundBelow w place n below) :
    Through w place n g.file := by
  unfold foundBelow at hg
  split at hg
  · exact absurd hg List.not_mem_nil
  · obtain ⟨t, ht⟩ := found_path hg
    rw [ht]
    exact through_below w place n t

/-! ### Counting -/

/-- A path through an entry is not found through others. -/
theorem count_other (gs : List Gatherer) {n path : List UInt8} (hn : 47 ∉ n) (hpath : Through w place n path)
    (hgs : ∀ g ∈ gs, ∃ m, m ≠ n ∧ 47 ∉ m ∧ Through w place m g.file) : (gs.map Gatherer.file).count path = 0 := by
  rw [List.count_eq_zero]
  intro hmem
  obtain ⟨g, hg, rfl⟩ := List.mem_map.mp hmem
  obtain ⟨m, hne, hm, hthrough⟩ := hgs g hg
  exact hne (hthrough.eq hpath hm hn)

/-- An eligible file is found once. -/
theorem found_count {below : Place} (h : FileAt entries below name content) (hproper : entries.Proper)
    (hopen : ∀ p, p <+: below → p ≠ [] → w.openFails (place ++ p) = false) (hline : HasFirstLine content) :
    ((found w place entries).map Gatherer.file).count (w.dirPath (place ++ below) ++ name) = 1 := by
  induction h generalizing place with
  | here name content rest =>
    obtain ⟨hn, -, hnew, hproper⟩ := hproper
    rw [List.append_nil, found, List.map_append, List.count_append]
    have hrest : ((found w place rest).map Gatherer.file).count (w.dirPath place ++ name) = 0 := by
      refine count_other _ hn (through_own w place name) ?_
      intro g hg
      obtain ⟨m, hm, hslash, hthrough⟩ := found_through hproper hg
      exact ⟨m, fun h => hnew (h ▸ hm), hslash, hthrough⟩
    have hone : ((constructed w place name content).map Gatherer.file).count (w.dirPath place ++ name) = 1 := by
      have hvalues := (getNumberOfValues_ne_zero content (w.leftover place name).rest (w.leftover place name).line).mpr hline
      unfold constructed dpgConstruction
      simp [hvalues]
    rw [hrest, hone]
  | behindFile n c h ih =>
    obtain ⟨m, hm, hslash, hthrough⟩ := fileAt_through h hproper.2.2.2 w place
    obtain ⟨hn, -, hnew, hproper⟩ := hproper
    rw [found, List.map_append, List.count_append]
    have hzero := count_other (constructed w place n c) hslash hthrough fun g hg =>
      ⟨n, fun h => hnew (h ▸ hm), hn, constructed_file hg ▸ through_own w place n⟩
    rw [hzero, ih hproper hopen hline]
  | behindDir n below h ih =>
    obtain ⟨m, hm, hslash, hthrough⟩ := fileAt_through h hproper.2.2.2.2 w place
    obtain ⟨hn, -, hnew, -, hproper⟩ := hproper
    rw [found, List.map_append, List.count_append, ih hproper hopen hline]
    have hzero := count_other (foundBelow w place n below) hslash hthrough fun g hg =>
      ⟨n, fun h => hnew (h ▸ hm), hn, foundBelow_through hg⟩
    exact congrArg (· + 1) hzero
  | @inside entries below name content n rest h ih =>
    obtain ⟨hn, hdots, hnew, hentries, hproper⟩ := hproper
    have hnotdots : ¬isDots n := by
      intro hd
      rw [hdots hd] at h
      cases h
    have hopens : w.openFails (place ++ [n]) = false := hopen [n] (List.prefix_append [n] _) (List.cons_ne_nil n [])
    have hone : ((found w (place ++ [n]) entries).map Gatherer.file).count (w.dirPath (place ++ [n] ++ below) ++ name) = 1 := by
      refine ih hentries (fun p hp _ => ?_) hline
      rw [← List.append_cons]
      exact hopen (n :: p) (List.cons_prefix_cons.mpr ⟨rfl, hp⟩) (List.cons_ne_nil n p)
    have hpath : Through w place n (w.dirPath (place ++ [n] ++ below) ++ name) := by
      rw [dirPath_append w (place ++ [n]), List.append_assoc]
      exact through_below w place n _
    have hrest : ((found w place rest).map Gatherer.file).count (w.dirPath (place ++ [n] ++ below) ++ name) = 0 := by
      refine count_other _ hn hpath ?_
      intro g hg
      obtain ⟨m, hm, hslash, hthrough⟩ := found_through hproper hg
      exact ⟨m, fun h => hnew (h ▸ hm), hslash, hthrough⟩
    rw [found, List.map_append, List.count_append, List.append_cons]
    rw [hrest, if_neg (by simp [hnotdots, hopens]), hone]

/-- A calm scan of proper entries survives. -/
theorem survives_of_calm (hproper : w.root.Proper) (hcalm : w.Calm s) : Survives w s (dtopSearch w s).2 := by
  obtain ⟨hgetcwd, hroot⟩ := hcalm
  by_cases hopen : w.openFails [] = true
  · have hnothing : dtopSearch w s = (dirFailure, s) := by
      unfold dtopSearch searchWith
      rw [if_neg hgetcwd, if_pos hopen]
    rw [hnothing]
    refine ⟨rfl, ?_⟩
    intro place name content h
    exact absurd hopen (by rw [h.opened [] List.nil_prefix]; exact Bool.false_ne_true)
  · have hall : dtopSearch w s = (dirSuccess, ⟨s.cwd, s.registered ++ found w [] w.root⟩) := by
      unfold dtopSearch searchWith
      rw [if_neg hgetcwd, if_neg hopen]
      exact searchLoop_calm rfl (fun _ _ => rfl) hproper (hroot.resolve_left hopen) s.cwd rfl
    rw [hall]
    refine ⟨rfl, ?_⟩
    intro place name content h
    unfold ScanState.timesRegistered
    rw [List.map_append, List.count_append]
    have hone : ((found w [] w.root).map Gatherer.file).count (w.dirPath ([] ++ place) ++ name) = 1 :=
      found_count h.fileAt hproper (fun p hp _ => h.opened p hp) h.firstLine
    exact congrArg (_ + ·) hone

end ScanAux

open ScanAux

/-- Where no `stat` fails and each working directory fits its buffer, the scan survives, whichever directories cannot be opened.
If it is called from another directory and nothing fails below, then it survives only so. -/
theorem scan_survives {w : Scan} (s : ScanState) (hproper : w.root.Proper) :
    (w.Calm s → Survives w s (dtopSearch w s).2) ∧
      ∀ path, s.cwd = .outside path → ¬w.getcwdFails s.cwd → w.root.CalmBelow w [] →
        (Survives w s (dtopSearch w s).2 ↔ w.Calm s) := by
  refine ⟨survives_of_calm hproper, ?_⟩
  intro path hcwd hgetcwd hbelow
  refine ⟨?_, survives_of_calm hproper⟩
  intro h
  by_cases hopen : w.openFails [] = true
  · exact ⟨hgetcwd, .inl hopen⟩
  · rcases calm_or_fails hbelow with hcalm | hfails
    · exact ⟨hgetcwd, .inr hcalm⟩
    · have hstuck : (dtopSearch w s).2.cwd = .inside [] := by
        unfold dtopSearch searchWith
        rw [if_neg hgetcwd, if_neg hopen]
        exact searchLoop_fails rfl (fun _ _ => rfl) hproper hbelow hfails s.cwd rfl
      rw [h.cwd, hcwd] at hstuck
      cases hstuck

/-- A scan of `/d/`, on cleared memory. -/
def scanOf (root : Entries) (statFails : Place → List UInt8 → Bool) (openFails : Place → Bool) : Scan where
  root := root
  dir := [47, 100, 47]
  base := [47, 100]
  statFails := statFails
  openFails := openFails
  leftover := fun _ _ => ⟨.zero, .zero, .cleared 0 0, fun _ => .blank⟩

/-- Files `a` and `f`, a directory `b` with a file `c`, and a directory `e` that cannot be opened. -/
def closedScan : Scan :=
  scanOf
    (.dir [46] .nil
      (.file [97] [49] (.dir [101] (.file [120] [49] .nil) (.dir [98] (.file [99] [50] .nil) (.file [102] [51] .nil)))))
    (fun _ _ => false) (fun place => place == [[101]])

/-- The rule for a scan with a directory that cannot be read. -/
theorem scan_survives_closed : Survives closedScan ⟨.outside [47], []⟩ (dtopSearch closedScan ⟨.outside [47], []⟩).2 := by
  refine (scan_survives _ ?_).1 ⟨by decide, .inr ?_⟩
  · simp [closedScan, scanOf, Entries.Proper, Entries.names, isDots]
  · simp [closedScan, scanOf, Entries.Calm, isDots, Scan.getcwdFails, Scan.cwdPath]

/-- The file `a` vanishes before its `stat`: `b` is not registered, and the working directory stays in the directory that
was scanned. -/
theorem not_scan_survives : ¬∀ (w : Scan) (s : ScanState), w.root.Proper → Survives w s (dtopSearch w s).2 := by
  intro h
  have hproper : (scanOf (.file [97] [49] (.file [98] [50] .nil)) (fun _ name => name == [97]) fun _ => false).root.Proper := by
    simp [scanOf, Entries.Proper, Entries.names, isDots]
  have hsurvives := h _ ⟨.outside [47], []⟩ hproper
  exact absurd hsurvives.cwd (by decide)

end Pixel845.Datatop
