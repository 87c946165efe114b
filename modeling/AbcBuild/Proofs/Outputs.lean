/-
Module: AbcBuild.Proofs.Outputs
Purpose: What the bytecode of a build leaves in a directory.  The file for a source has the stem of its name,
  so sources with one stem have one file, and the last of them stays there.
Main exports: Path.slash_notMem_of_fileStem?, Cli.Tree.place?, Cli.run_writeFiles, Cli.outputs_hold_last
-/
import AbcBuild.Cli.Run
import AbcBuild.Proofs.Incremental
import AbcBuild.Proofs.NameTexts
import AbcBuild.Proofs.Success

namespace AbcBuild

/-! ### Stems and paths -/

namespace Path

variable {path stem directory name : List Char}

/-- A stem is part of one piece of its path. -/
theorem slash_notMem_of_fileStem? (h : fileStem? path = some stem) : '/' ∉ stem := by
  obtain ⟨name, found, rfl⟩ := Option.map_eq_some_iff.1 h
  have piece (body : List Char) : '/' ∉ (lastPiece body).2 := by
    rw [lastPiece]
    cases split : Text.splitLast? '/' body with
    | none => exact Text.splitLast?_eq_none_iff.1 split
    | some cut => exact (Text.splitLast?_eq_some split).2
  have plain : '/' ∉ name := by
    rw [fileName?, last?] at found
    grind
  cases cut : cutAtDot? name with
  | none => exact plain
  | some parts =>
    rw [cutAtDot?] at cut
    split at cut
    next => cases cut
    next => exact fun slash => plain ((Text.splitLast?_eq_some cut).1 ▸ List.mem_append_left _ slash)

/-- A name without a slash comes to stand in the directory. -/
theorem join_cases (plain : '/' ∉ name) (directory : List Char) :
    (directory = [] ∧ join directory name = name) ∨
      (∃ front, directory = front ++ ['/'] ∧ join directory name = front ++ '/' :: name) ∨
      directory ≠ [] ∧ join directory name = directory ++ '/' :: name := by
  have joined : join directory name =
      if directory.isEmpty || directory.getLast? = some '/' then directory ++ name else directory ++
        '/' :: name := by
    unfold join
    split
    next => exact absurd (.head _) plain
    next => rfl
  rcases List.eq_nil_or_concat' directory with rfl | ⟨front, last, rfl⟩
  · exact .inl ⟨rfl, joined⟩
  by_cases slash : last = '/'
  · subst slash
    exact .inr (.inl ⟨front, rfl, by simp [joined]⟩)
  · exact .inr (.inr ⟨by simp, by simp [joined, slash]⟩)

end Path

namespace Cli

namespace Tree

theorem pieces_ne_nil (path : List Char) : pieces path ≠ [] := by
  fun_induction pieces path <;> simp

@[simp] theorem pieces_slash (front rest : List Char) :
    pieces (front ++ '/' :: rest) = pieces front ++ pieces rest := by
  induction front with
  | nil => simp [pieces]
  | cons c front ih =>
    rw [List.cons_append, pieces, pieces, ih]
    cases split : pieces front with
    | nil => exact absurd split (pieces_ne_nil front)
    | cons piece more => split <;> rfl

@[simp] theorem pieces_plain {name : List Char} (plain : '/' ∉ name) : pieces name = [name] := by
  induction name with
  | nil => rfl
  | cons c name ih =>
    rw [List.mem_cons, not_or] at plain
    rw [pieces, if_neg (Ne.symm plain.1), ih plain.2]

/-- The names on a path. -/
def named (path : List Char) : List (List Char) := (pieces path).filter fun piece => !piece.isEmpty

variable {t t' : Tree} {path directory name : List Char} {place home : Place}

/-- A plain name that is joined to a directory comes last on the path. -/
theorem named_join (plain : '/' ∉ name) (filled : name ≠ []) :
    named (Path.join directory name) = named directory ++ [name] := by
  have kept : [name].filter (fun piece => !piece.isEmpty) = [name] := by simp [filled]
  rcases Path.join_cases plain directory with ⟨rfl, joined⟩ | ⟨front, rfl, joined⟩ | ⟨-, joined⟩
  · rw [joined, named, pieces_plain plain, kept]
    rfl
  · rw [joined, named, named, pieces_slash, pieces_slash, pieces_plain plain, List.filter_append, kept,
      List.filter_append]
    simp [pieces]
  · rw [joined, named, pieces_slash, pieces_plain plain, List.filter_append, kept, named]

theorem start_join (plain : '/' ∉ name) : t.start (Path.join directory name) = t.start directory := by
  rcases Path.join_cases plain directory with ⟨rfl, joined⟩ | ⟨front, rfl, joined⟩ | ⟨filled, joined⟩
  · rw [joined, start, if_neg fun slash : name.head? = some '/' => plain (List.mem_of_mem_head? slash)]
    rfl
  · rw [joined, start, start]
    cases front <;> rfl
  · rw [joined, start, start, List.head?_append_of_ne_nil _ filled]

/-! ### Places -/

/-- The place that a path leads to. -/
def place? (t : Tree) (path : List Char) : Option Place := (t.follow (t.start path) (steps path)).toOption

theorem follow_cons {step : List Char} {rest : List (List Char)} :
    t.follow place (step :: rest) = .ok home ↔
      ∃ next, t.stepTo place step = .ok next ∧ t.follow next rest = .ok home := by
  rw [follow]
  cases t.stepTo place step <;> simp

theorem follow_append {first : List (List Char)} {step : List Char} {next : Place}
    (start : t.follow place first = .ok home) (one : t.stepTo home step = .ok next) :
    t.follow place (first ++ [step]) = .ok next := by
  induction first generalizing place with
  | nil =>
    cases start
    exact follow_cons.2 ⟨next, one, rfl⟩
  | cons other first ih =>
    obtain ⟨middle, before, start⟩ := follow_cons.1 start
    exact follow_cons.2 ⟨middle, before, ih start⟩

/-- Both trees have the same directories. -/
structure SameDirectories (t t' : Tree) : Prop where
  working : t'.working = t.working
  directory : ∀ place, t'.entry? place = some .directory ↔ t.entry? place = some .directory

theorem SameDirectories.trans {t'' : Tree} (h : t.SameDirectories t') (h' : t'.SameDirectories t'') :
    t.SameDirectories t'' :=
  ⟨h'.working.trans h.working, fun place => (h'.directory place).trans (h.directory place)⟩

/-- Steps lead through directories. -/
theorem SameDirectories.follow (same : t.SameDirectories t') {steps : List (List Char)}
    (h : t.follow place steps = .ok home) : t'.follow place steps = .ok home := by
  induction steps generalizing place with
  | nil => exact h
  | cons step rest ih =>
    obtain ⟨next, one, h⟩ := follow_cons.1 h
    refine follow_cons.2 ⟨next, ?_, ih h⟩
    rw [stepTo] at one ⊢
    split at one
    next => cases one
    next => cases one
    next here => rw [(same.directory place).2 here, one]

/-! ### Writing a file -/

/-- A file can be written at the end of the path.  It gets the name, in a directory. -/
structure Receives (t : Tree) (path : List Char) (home : Place) (name : List Char) : Prop where
  above : t.follow (t.start path) (named path).dropLast = .ok home
  directory : t.entry? home = some .directory
  last : (named path).getLast? = some name
  proper : name ≠ ['.'] ∧ name ≠ ['.', '.']
  file : path.getLast? ≠ some '/'
  free : t.entry? (home ++ [name]) ≠ some .directory

/-- Whether a file can be written depends on the directories only. -/
theorem Receives.same (h : t.Receives path home name) (same : t.SameDirectories t') :
    t'.Receives path home name where
  above := by
    rw [start, same.working]
    exact same.follow h.above
  directory := (same.directory _).2 h.directory
  last := h.last
  proper := h.proper
  file := h.file
  free := fun there => h.free ((same.directory _).1 there)

theorem Receives.place? (h : t.Receives path home name) : t.place? path = some (home ++ [name]) := by
  have one : t.stepTo home name = .ok (home ++ [name]) := by
    rw [stepTo, h.directory]
    simp [h.proper]
  have all : steps path = (named path).dropLast ++ [name] := by
    rw [steps, if_neg h.file, ← named, List.dropLast_append_getLast? _ h.last]
  rw [Tree.place?, all, toOption_eq_some]
  exact follow_append h.above one

/-- The tree with a file put in. -/
def holding (t : Tree) (place : Place) (bytes : List UInt8) : Tree :=
  { t with entries := t.entries.insert place (.file bytes) }

/-- A path leads to a new entry if its last name is proper and the others lead to a directory. -/
theorem newcomer_eq_ok_iff : t.newcomer path = .ok (home, some name) ↔
    t.follow (t.start path) (named path).dropLast = .ok home ∧ t.entry? home = some .directory ∧
      (named path).getLast? = some name ∧ name ≠ ['.'] ∧ name ≠ ['.', '.'] := by
  simp only [newcomer]
  rw [← named]
  constructor
  · intro h
    split at h
    next => cases h
    next place above =>
      split at h
      next => cases h
      next => cases h
      next directory =>
        rw [Except.ok.injEq, Prod.mk.injEq, Option.filter_eq_some_iff] at h
        obtain ⟨rfl, last, proper⟩ := h
        exact ⟨above, directory, last, by simpa using proper⟩
  · rintro ⟨above, directory, last, proper⟩
    simp [above, directory, last, proper]

/-- A file is written exactly if its path receives one, and then the tree holds it there. -/
theorem write_eq_ok_iff {bytes : List UInt8} :
    t.write path bytes = .ok t' ↔ ∃ home name, t.Receives path home name ∧
      t' = t.holding (home ++ [name]) bytes := by
  constructor
  · intro h
    rw [write] at h
    split at h
    next => cases h
    next => cases h
    next home name found =>
      obtain ⟨above, directory, last, proper⟩ := newcomer_eq_ok_iff.1 found
      split at h
      next => cases h
      next clear =>
        cases h
        rw [Bool.or_eq_true, not_or, decide_eq_true_eq, decide_eq_true_eq] at clear
        exact ⟨home, name, ⟨above, directory, last, proper, clear.1, clear.2⟩, rfl⟩
  · rintro ⟨home, name, h, rfl⟩
    rw [write, newcomer_eq_ok_iff.2 ⟨h.above, h.directory, h.last, h.proper⟩]
    simp [h.file, h.free, holding]

@[simp] theorem entry?_holding (free : t.entry? place ≠ some .directory) (bytes : List UInt8)
    (other : Place) :
    Tree.entry? (t.holding place bytes) other = if place
      = other then some (.file bytes) else t.entry? other := by
  unfold entry? holding
  rw [Table.get?_insert]
  split
  next root =>
    have here : place ≠ other := fun same => free (by unfold entry?; rw [same, if_pos root])
    rw [if_neg here]
  next => rfl

theorem sameDirectories_holding (free : t.entry? place ≠ some .directory) (bytes : List UInt8) :
    t.SameDirectories (t.holding place bytes) := by
  refine ⟨rfl, fun other => ?_⟩
  rw [entry?_holding free]
  split
  next here => exact iff_of_false (by simp) (here ▸ free)
  next => exact Iff.rfl

theorem read_eq_ok {bytes : List UInt8} (leads : t.place? path = some place)
    (there : t.entry? place = some (.file bytes)) : t.read path = .ok bytes := by
  rw [place?, toOption_eq_some] at leads
  simp [read, find, leads, there]

theorem run_write {path : String} {bytes : List UInt8} (h : t.write path.toList bytes = .ok t') :
    (disk.write path bytes).run t = (.ok ⟨⟩, t') := by
  simp only [disk, StateT.run_bind, StateT.run_get, pure_bind]
  rw [h]
  rfl

theorem run_createDirectories {path : String} (h : t.createDirectories path.toList = (t', none)) :
    (disk.createDirectories path).run t = (.ok ⟨⟩, t') := by
  simp only [disk, StateT.run_bind, StateT.run_get, pure_bind]
  rw [h]
  rfl

end Tree

variable {t : Tree} {directory source : String}

/-- The place where the bytecode of a source goes. -/
def target (t : Tree) (directory source : String) : Option Place :=
  t.place? (outputPath directory source).toList

/-- A source whose name has a stem goes to the file of that stem in the directory. -/
theorem target_of_stem {home : Place} {name stem : List Char}
    (h : t.Receives (outputPath directory source).toList home name)
    (named : Path.fileStem? source.toList = some stem) :
    t.place? directory.toList = some home ∧ name = stem ++ ".abc".toList := by
  have plain : '/' ∉ stem ++ ".abc".toList := by
    rw [List.mem_append, not_or]
    exact ⟨Path.slash_notMem_of_fileStem? named, by decide⟩
  have path : (outputPath directory source).toList = Path.join directory.toList (stem ++ ".abc".toList) := by
    rw [outputPath, named, Option.getD_some, String.toList_ofList]
  have all : Tree.named (Path.join directory.toList (stem ++ ".abc".toList)) = _ :=
    Tree.named_join plain (by simp)
  have above := h.above
  have last := h.last
  rw [path, all] at last
  rw [path, all, List.dropLast_concat, Tree.start_join plain] at above
  refine ⟨?_, by simpa using last.symm⟩
  -- A slash at the end of the directory leads back to the same place.
  have stay : t.stepTo home ['.'] = .ok home := by
    rw [Tree.stepTo, h.directory]
    simp
  rw [Tree.place?, toOption_eq_some, Tree.steps, ← Tree.named]
  split
  · exact Tree.follow_append above stay
  · exact above

/-- Files are written one after the other.  In the end each place holds the last file that goes there. -/
theorem run_writeFiles {items : List (String × List UInt8)} (goes : String → Option Place)
    (all : ∀ item ∈ items, ∃ home name, t.Receives (outputPath directory item.1).toList home name ∧
      goes item.1 = some (home ++ [name])) :
    ∃ t', (writeFiles Tree.disk directory items).run t = (none, t') ∧ t.SameDirectories t' ∧
      ∀ place, t'.entry? place = ((items.reverse.find? fun item => goes item.1 = some place).map
        fun item => .file item.2).or (t.entry? place) := by
  induction items generalizing t with
  | nil => exact ⟨t, rfl, ⟨rfl, fun _ => Iff.rfl⟩, fun _ => rfl⟩
  | cons item rest ih =>
    obtain ⟨home, name, receives, here⟩ := all item (.head _)
    have same := Tree.sameDirectories_holding receives.free item.2
    obtain ⟨t', later, same', entries⟩ := ih fun other member => by
      obtain ⟨home, name, receives, there⟩ := all other (.tail _ member)
      exact ⟨home, name, receives.same same, there⟩
    refine ⟨t', ?_, same.trans same', fun place => ?_⟩
    · rw [writeFiles, StateT.run_bind, Tree.run_write (Tree.write_eq_ok_iff.2 ⟨home, name, receives, rfl⟩)]
      exact later
    · rw [entries, Tree.entry?_holding receives.free, List.reverse_cons, List.find?_append]
      cases rest.reverse.find? fun item => goes item.1 = some place with
      | some last => rfl
      | none => by_cases own : home ++ [name] = place <;> simp [own, here]

end Cli

/-- The bytecode that there is to write, in the order of the sources. -/
def BuildReport.outputs (r : BuildReport) : List (String × List UInt8) :=
  r.bytecode.entries.filter fun e => !e.2.isEmpty

/-- A report has one entry for a source. -/
theorem Compilation.nodup_outputs {c : Compilation} {r : BuildReport} (built : c.build.1 = .ok r) :
    (r.outputs.map Prod.fst).Nodup := by
  obtain ⟨cx, -, -, -, rfl⟩ := run_of_ok built
  exact (Table.nodup_keys_insertAll (t := .empty) List.nodup_nil _).sublist (List.filter_sublist.map _)

namespace Cli

open Compilation (after base bundle)

/-- The bytecode of a build is written into a directory that can be created and written.  Each source goes to
    a place, and each place holds the bytecode of the last source that goes there; nothing else is changed.
    A source whose name has a stem goes to the file of that stem in the directory.  So the file of each
    source holds its bytecode if all names have a stem and no two have the same. -/
theorem outputs_hold_last {c : Compilation} {r : BuildReport} (built : c.build.1 = .ok r) {t created : Tree}
    {directory : String} (made : t.createDirectories directory.toList = (created, none))
    (writable : ∀ e ∈ r.outputs, ∃ t', created.write (outputPath directory e.1).toList e.2 = .ok t') :
    ∃ t', (writeBytecode Tree.disk directory r.bytecode).run t = (none, t') ∧
      (∀ e ∈ r.outputs, (target created directory e.1).isSome = true ∧
        ∀ stem, Path.fileStem? e.1.toList = some stem → ∃ home, created.place? directory.toList = some home ∧
          target created directory e.1 = some (home ++ [stem ++ ".abc".toList])) ∧
      (∀ place, t'.entry? place = ((r.outputs.reverse.find? fun e =>
        target created directory e.1 = some place).map fun e => .file e.2).or (created.entry? place)) ∧
      ((∀ e ∈ r.outputs, (Path.fileStem? e.1.toList).isSome = true) →
        (∀ e ∈ r.outputs, ∀ other ∈ r.outputs, Path.fileStem? e.1.toList = Path.fileStem? other.1.toList →
          e.1 = other.1) →
        ∀ e ∈ r.outputs, t'.read (outputPath directory e.1).toList = .ok e.2 ∧
          ∀ other ∈ r.outputs, target created directory other.1 = target created directory e.1 →
          other.1 = e.1) := by
  have receives : ∀ e ∈ r.outputs, ∃ home name,
      created.Receives (outputPath directory e.1).toList home name := by
    intro e member
    obtain ⟨t', wrote⟩ := writable e member
    obtain ⟨home, name, h, -⟩ := Tree.write_eq_ok_iff.1 wrote
    exact ⟨home, name, h⟩
  obtain ⟨t', run, same, entries⟩ := run_writeFiles (target created directory) fun e member => by
    obtain ⟨home, name, h⟩ := receives e member
    exact ⟨home, name, h, h.place?⟩
  have goes : ∀ e ∈ r.outputs, ∀ stem, Path.fileStem? e.1.toList = some stem → ∃ home,
      created.place? directory.toList = some home ∧
        target created directory e.1 = some (home ++ [stem ++ ".abc".toList]) := by
    intro e member stem named
    obtain ⟨home, name, h⟩ := receives e member
    obtain ⟨above, rfl⟩ := target_of_stem h named
    exact ⟨home, above, h.place?⟩
  refine ⟨t', ?_, fun e member => ⟨?_, goes e member⟩, entries, fun stemmed distinct e member => ?_⟩
  · rw [writeBytecode, StateT.run_bind, Tree.run_createDirectories made]
    exact run
  · obtain ⟨home, name, h⟩ := receives e member
    rw [target, h.place?]
    rfl
  have apart : ∀ other ∈ r.outputs, target created directory other.1 = target created directory e.1 →
      other.1 = e.1 := by
    intro other listed there
    obtain ⟨stem, named⟩ := Option.isSome_iff_exists.1 (stemmed e member)
    obtain ⟨stem', named'⟩ := Option.isSome_iff_exists.1 (stemmed other listed)
    obtain ⟨home, above, here⟩ := goes e member stem named
    obtain ⟨home', above', there'⟩ := goes other listed stem' named'
    cases above.symm.trans above'
    rw [here, there', Option.some_inj, List.append_cancel_left_eq, List.singleton_inj,
      List.append_cancel_right_eq] at there
    exact distinct other listed e member (by rw [named, named', there])
  refine ⟨?_, apart⟩
  obtain ⟨home, name, h⟩ := receives e member
  refine Tree.read_eq_ok (h.same same).place? ?_
  rw [entries]
  cases found : r.outputs.reverse.find? fun e => target created directory e.1 = some (home ++ [name]) with
  | none => exact absurd (decide_eq_true h.place?) (List.find?_eq_none.1 found e (List.mem_reverse.2 member))
  | some last =>
    have listed := List.mem_reverse.1 (List.mem_of_find?_eq_some found)
    have there : target created directory last.1 = some (home ++ [name]) := by
      simpa using List.find?_some found
    have own := apart last listed (there.trans h.place?.symm)
    rw [List.inj_on_of_nodup_map (Compilation.nodup_outputs built) listed member own]
    rfl

/-- A class and a bundle, which have two files. -/
theorem outputs_hold_last_shapes : ∃ r t', (after {} [.add (base "x"), .add bundle]).build.1 = .ok r ∧
    (writeBytecode Tree.disk "out" r.bytecode).run {} = (none, t') ∧
    r.outputs.map Prod.fst = ["x.abc", "b.properties"] ∧
    ∀ e ∈ r.outputs, t'.read (outputPath "out" e.1).toList = .ok e.2 := by
  have names : ((after {} [.add (base "x"), .add bundle]).build.1.toOption.map fun r =>
      r.outputs.map Prod.fst) = some ["x.abc", "b.properties"] := by decide +kernel
  obtain ⟨r, found, names⟩ := Option.map_eq_some_iff.1 names
  have built := toOption_eq_some.1 found
  have named : ∀ e ∈ r.outputs, e.1 = "x.abc" ∨ e.1 = "b.properties" := fun e member => by
    simpa [names] using List.mem_map_of_mem (f := Prod.fst) member
  have made : ({} : Tree).createDirectories "out".toList = (_, none) := rfl
  obtain ⟨t', run, -, -, own⟩ := outputs_hold_last built made fun e member => by
    rcases named e member with here | here <;> rw [here] <;> exact ⟨_, rfl⟩
  refine ⟨r, t', built, run, names, fun e member => (own ?_ ?_ e member).1⟩
  · intro e member
    rcases named e member with here | here <;> rw [here] <;> rfl
  · intro e member other member' same
    rcases named e member with here | here <;> rcases named other member' with there | there <;>
      rw [here, there] at same ⊢ <;> cases same

/-- Bundles of two locales. -/
def greetings : List Edit :=
  [.add (.ofPath "en/core.properties" none (.ok [97, 61, 49])),
    .add (.ofPath "fr/core.properties" none (.ok [97, 61, 50]))]

/-- Both bundles have bytecode, and there is one file. -/
theorem equal_stems_share_file : ((after {} greetings).build.1.toOption.map fun r =>
    (r.outputs.map Prod.fst, ((writeBytecode Tree.disk "out" r.bytecode).run {}).1,
      ((writeBytecode Tree.disk "out" r.bytecode).run {}).2.files.map Prod.fst))
    = some (["en/core.properties", "fr/core.properties"], none, ["out/core.abc"]) := by
  decide +kernel

end Cli

end AbcBuild
