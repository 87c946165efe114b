/-
Module: AbcBuild.Proofs.OneType
Purpose: A name that the classes of a unit mention more than once, and the types that their descriptors give
  for it.  Each role has its way to write a name; where the ways lead to the same type, and where they part.
Main exports: Role.agreeOn, Scope.superText_eq_or, Compilation.one_name_one_type,
  Compilation.one_name_two_types
-/
import AbcBuild.Proofs.SourceOrder

namespace AbcBuild

variable {config : Config}

/-! ### Roles -/

namespace Role

/-- The type is written when the class is published, not bound before. -/
def isPlain : Role → Bool
  | .interface | .parameter | .result => true
  | .supertype | .slot => false

/-- A name is written alike in both roles, whatever the unit knows: the roles are the same, or both plain;
    the name has one candidate at most; or no candidate is builtin, and neither role is that of the
    supertype. -/
def agreeOn (n : Name) (role role' : Role) : Bool :=
  role = role' || role.isPlain && role'.isPlain || n.isSettled ||
    n.builtin?.isNone && role ≠ .supertype && role' ≠ .supertype

end Role

namespace Scope

variable {s : Scope} {n : Name}

theorem write_of_isPlain {role : Role} (h : role.isPlain = true) (s : Scope) (n : Name) :
    s.write role n = s.text n := by
  cases role <;> first | rfl | cases h

theorem text_of_find? {q : QName} (h : n.candidates.find? s.late = some q) : s.text n = q.text := by
  rw [text, h]
  rfl

/-- Without a builtin candidate, the type of a slot is written like any other. -/
theorem slotText_eq (plain : n.builtin? = none) : s.slotText n = s.text n := by
  rw [slotText, Name.boundIn, plain, Option.or_none]
  cases found : n.candidates.find? s.late with
  | none => rfl
  | some q => exact (text_of_find? found).symm

theorem write_eq_text {role : Role} (plain : n.builtin? = none) (other : role ≠ .supertype) :
    s.write role n = s.text n := by
  cases role with
  | supertype => exact (other rfl).elim
  | slot => exact slotText_eq plain
  | interface | parameter | result => rfl

theorem write_eq_of_agreeOn {role role' : Role} (h : Role.agreeOn n role role' = true) (s : Scope) :
    s.write role n = s.write role' n := by
  simp only [Role.agreeOn, Bool.or_eq_true, decide_eq_true_eq, Bool.and_eq_true, Option.isNone_iff_eq_none,
    ne_eq] at h
  rcases h with ((rfl | ⟨plain, plain'⟩) | settled) | ⟨⟨plain, other⟩, other'⟩
  · rfl
  · rw [write_of_isPlain plain, write_of_isPlain plain']
  · exact write_of_isSettled settled ..
  · rw [write_eq_text plain other, write_eq_text plain other']

/-- Without a builtin candidate, a supertype is written like any other type, unless the unit has met an
    earlier candidate since the supertype was bound. -/
theorem superText_eq_or (plain : n.builtin? = none) : s.superText n = s.text n ∨
    ∃ q q' before rest, n.candidates = before ++ q' :: rest ∧ q ∈ rest ∧ s.superText n = q.text ∧
      s.text n = q'.text := by
  rw [superText, Name.boundIn, plain, Option.or_none]
  cases found : n.candidates.find? s.early with
  | none => exact .inl rfl
  | some q =>
    have candidate := List.mem_of_find?_eq_some found
    have late : s.late q = true := s.grows q (List.find?_some found)
    obtain ⟨q', found'⟩ := Option.isSome_iff_exists.1 (List.find?_isSome.2 ⟨q, candidate, late⟩)
    rw [text_of_find? found', Option.elim_some]
    obtain ⟨-, before, rest, split, skipped⟩ := List.find?_eq_some_iff_append.1 found'
    rw [split, List.mem_append, List.mem_cons] at candidate
    rcases candidate with earlier | rfl | later
    · have unknown := skipped q earlier
      rw [late] at unknown
      cases unknown
    · exact .inl rfl
    · exact .inr ⟨q, q', before, rest, split, later, rfl, rfl⟩

end Scope

/-- A unit that has met all others writes a name without a builtin candidate in one way. -/
theorem Part.write_scope (parts : List (Part config)) {n : Name} (plain : n.builtin? = none) (role : Role) :
    (Part.scope parts).write role n = (Part.scope parts).text n := by
  have same : (Part.scope parts).superText n = (Part.scope parts).slotText n := rfl
  cases role with
  | supertype => exact same.trans (Scope.slotText_eq plain)
  | _ => exact Scope.write_eq_text plain nofun

/-! ### The types that a unit publishes -/

namespace ParseTree

/-- The program of a block. -/
def block? : ParseTree → Option Program
  | .abc p => some p
  | .properties _ => none

theorem eq_of_block? {t : ParseTree} {p : Program} (h : t.block? = some p) : t = .abc p := by
  cases t with
  | abc p' =>
    cases h
    rfl
  | properties file => cases h

theorem source_of_shown? {t : ParseTree} {s : Scope} {source name : String} {d : ClassDescriptor}
    (h : t.shown? s source name = some d) : d.source = some source := by
  cases t with
  | abc p =>
    obtain ⟨placed, -, rfl⟩ := Option.map_eq_some_iff.1 h
    rfl
  | properties file =>
    rw [shown?] at h
    split at h
    next =>
      cases h
      rfl
    next => cases h

end ParseTree

namespace Compilation

variable {c : Compilation} {past : List (List Source)} {rest : List Edit}

/-- The types that the descriptors of a unit give are written in one scope.  In a build without a cache, it
    writes unambiguous references as if the unit had met all others. -/
theorem Sound.build_types (h : c.Sound config past rest) {r : BuildReport} (ok : c.build.1 = .ok r)
    {s : Source} (member : s ∈ c.sources.values) {p : Program} (parsed : s.tree? config = some (.abc p)) :
    ∃ (parts : List (Part config)) (scope : Scope), parts.map Part.source = c.sources.values ∧
      (∀ name index cls d, p.lastNamed? name = some (index, cls) → c.published? name = some d →
        d.source = some s.name → d.typeTexts = cls.mentions.map fun m => scope.write m.1 m.2) ∧
      (c.cache.isEmpty = true → Part.Declared parts → ∀ cls ∈ p.classes, ∀ m ∈ cls.mentions,
        m.2.isUnambiguous (Part.known parts) (Part.defines parts) = true →
        scope.write m.1 m.2 = (Part.scope parts).write m.1 m.2) := by
  obtain ⟨parts, l, view, sources, -, -, -, shown⟩ := h.build_shows ok
  let part : Part config := ⟨s, .abc p, parsed⟩
  have own (name : String) (d : ClassDescriptor) (published : c.published? name = some d)
      (source : d.source = some s.name) : part.tree.shown? (view part) s.name name = some d ∧
      (c.reusable = 0 → part.Sees (Part.known parts) parts (view part)) := by
    have found := published
    rw [published?_eq ok] at found
    obtain ⟨id, held, -⟩ := Option.bind_eq_some_iff.1 found
    obtain ⟨other, listed, d', published', shows, -, -, sees⟩ :=
      shown name ((Table.isSome_get? _ _).1 (by rw [held]; rfl))
    cases published.symm.trans published'
    have named : other.source.name = s.name :=
      Option.some.inj ((ParseTree.source_of_shown? shows).symm.trans source)
    have current := h.get?_name (sources ▸ List.mem_map_of_mem listed)
    rw [named, h.get?_name member] at current
    have here : other = part := Part.ext_source (Option.some.inj current).symm
    subst here
    exact ⟨shows, sees⟩
  by_cases present : ∃ name d, c.published? name = some d ∧ d.source = some s.name
  · refine ⟨parts, view part, sources, fun name index cls d last published source => ?_,
      fun fresh declared => ?_⟩
    · obtain ⟨shows, -⟩ := own name d published source
      rw [ParseTree.shown?, last, Option.map_some] at shows
      cases shows
      exact Program.typeTexts_describe ..
    · obtain ⟨name, d, published, source⟩ := present
      obtain ⟨-, sees⟩ := own name d published source
      exact fun cls held m mentioned unambiguous =>
        ((sees (reusable_eq_zero fresh)).write_unambiguous declared rfl held mentioned unambiguous).1
  · -- other sources have classes of all these names
    refine ⟨parts, Part.scope parts, sources, fun name index cls d _ published source => ?_,
      fun _ _ _ _ _ _ _ => rfl⟩
    exact (present ⟨name, d, published, source⟩).elim

/-- After any steady history, a unit of a build that succeeds has one way to write a name in a role: its
    descriptors give for all that its classes mention what is written so.  A name is written as one of its
    candidates.  It is written alike in roles that agree on it.  If it has no builtin candidate, it is
    written as a supertype like in any other role, or there as an earlier candidate.  In a build without a
    cache, where the classes of each block are among its definitions, it is written alike wherever the unit
    mentions it, if besides the first candidate that a source knows is the first that a source defines. -/
theorem one_name_one_type (config : Config) (edits : List Edit) (steady : Edit.Steady config edits)
    (r : BuildReport) (ok : (after config edits).build.1 = .ok r) (s : Source)
    (member : s ∈ (after config edits).sources.values) (p : Program)
    (parsed : s.tree? config = some (.abc p)) :
    ∃ write : Role → Name → String,
      (∀ name index cls d, p.lastNamed? name = some (index, cls) →
        (after config edits).published? name = some d → d.source = some s.name →
        d.typeTexts = cls.mentions.map fun m => write m.1 m.2) ∧
      (∀ role n, write role n ∈ n.readings) ∧
      (∀ n role role', Role.agreeOn n role role' = true → write role n = write role' n) ∧
      (∀ n role, n.builtin? = none → write .supertype n = write role n ∨
        ∃ q q' before rest, n.candidates = before ++ q' :: rest ∧ q ∈ rest ∧ write .supertype n = q.text ∧
          write role n = q'.text) ∧
      ((after config edits).cache.isEmpty = true →
        (∀ s' ∈ (after config edits).sources.values, s'.declaresClasses config = true) →
        let parts := Part.ofSources config (after config edits).sources.values
        ∀ n, n.builtin? = none → n.candidates.find? (Part.known parts)
        = n.candidates.find? (Part.defines parts) →
          ∀ cls ∈ p.classes, ∀ cls' ∈ p.classes, ∀ role role', (role, n) ∈ cls.mentions →
          (role', n) ∈ cls'.mentions →
            write role n = write role' n) := by
  have sound := sound_after steady
  obtain ⟨parts, scope, sources, types, unambiguous⟩ := sound.build_types ok member parsed
  have ofSources : Part.ofSources config (after config edits).sources.values = parts := by
    rw [← sources, Part.ofSources_map_source]
  refine ⟨scope.write, types, scope.write_mem_readings, fun n role role' agree =>
    scope.write_eq_of_agreeOn agree, fun n role plain => ?_, fun fresh declared => ?_⟩
  · by_cases other : role = .supertype
    · exact .inl (by rw [other])
    · rw [Scope.write_eq_text plain other]
      exact scope.superText_eq_or plain
  · rw [ofSources]
    intro _ n plain first cls held cls' held' role role' mentioned mentioned'
    have all : Part.Declared parts := Part.declared_of_sources fun part listed =>
      declared part.source (sources ▸ List.mem_map_of_mem listed)
    have isUnambiguous : n.isUnambiguous (Part.known parts) (Part.defines parts) = true :=
      Name.isUnambiguous_of_first plain first
    rw [unambiguous fresh all cls held _ mentioned isUnambiguous,
      unambiguous fresh all cls' held' _ mentioned' isUnambiguous, Part.write_scope parts plain,
      Part.write_scope parts plain]

/-- A class that implements what it extends.  Its methods have no bodies. -/
def doubled (name : String) (spec : Abc.ClassSpec) : Source :=
  let file := Abc.File.ofClasses [spec]
  let instances := file.instances.map fun info => { info with interfaces := [info.superName] }
  ⟨name, "", Mime.abc, .ok ({ file with instances := instances, bodies := [] } : Abc.File).encode⟩

/-- A class that mentions a name as its supertype and as an interface, beside two sources that have a type of
    it. -/
def pair : List Edit :=
  [.add (base "y"), .add (base "x"),
   .add (doubled "u.abc" ((Abc.ClassSpec.named "U").extendingMulti ⟨["x", "y"], "Base"⟩))]

theorem one_name_one_type_pair : ∃ text, ((after {} pair).published? "U").map ClassDescriptor.typeTexts
    = some [text, text] := by
  have steady : Edit.Steady {} pair := ⟨nofun, nofun, nofun, trivial⟩
  have built : (after {} pair).build.1.isOk = true := by decide +kernel
  obtain ⟨r, ok⟩ := Part.exists_ok built
  let n : Name := .multi ⟨["x", "y"], "Base"⟩
  let u := doubled "u.abc" ((Abc.ClassSpec.named "U").extendingMulti ⟨["x", "y"], "Base"⟩)
  have member : u ∈ (after {} pair).sources.values := by
    have sources : (after {} pair).sources.values = [base "y", base "x", u] := rfl
    simp [sources]
  have checked : (((u.tree? {}).bind ParseTree.block?).any fun p => (p.lastNamed? "U").any fun placed =>
    p.classes.contains placed.2 && placed.2.mentions = [(.supertype, n), (.interface, n)] &&
      ((after {} pair).published? "U").any fun d => d.source = some u.name) = true := by decide +kernel
  obtain ⟨p, block, holds⟩ := (Option.any_eq_true _ _).1 checked
  obtain ⟨tree, parsed, block⟩ := Option.bind_eq_some_iff.1 block
  cases ParseTree.eq_of_block? block
  obtain ⟨⟨index, cls⟩, last, holds⟩ := (Option.any_eq_true _ _).1 holds
  obtain ⟨holds, shown⟩ := Bool.and_eq_true_iff.1 holds
  obtain ⟨held, mentions⟩ := Bool.and_eq_true_iff.1 holds
  have mentions : cls.mentions = [(.supertype, n), (.interface, n)] := of_decide_eq_true mentions
  obtain ⟨d, published, source⟩ := (Option.any_eq_true _ _).1 shown
  obtain ⟨write, types, -, -, -, alike⟩ := one_name_one_type {} pair steady r ok u member p parsed
  have declared : ∀ s ∈ (after {} pair).sources.values, s.declaresClasses {} = true := by decide +kernel
  have first : n.candidates.find? (Part.known (Part.ofSources {} (after {} pair).sources.values))
      = n.candidates.find? (Part.defines (Part.ofSources {} (after {} pair).sources.values)) := by
        decide +kernel
  have held := List.contains_iff_mem.1 held
  have same := alike rfl declared n rfl first cls held cls held .supertype .interface (by simp [mentions])
    (by simp [mentions])
  refine ⟨write .supertype n, ?_⟩
  rw [published, Option.map_some, types "U" index cls d last published (of_decide_eq_true source), mentions]
  simp [same]

/-! ### Names of two types -/

/-- A class that mentions a name as its supertype and as an interface, with further members. -/
def heir (name : MultiName) (spec : Abc.ClassSpec) : Source := doubled "u.abc" (spec.extendingMulti name)

/-- A class whose supertype is the type of a variable and of a getter, too. -/
def echo (name : MultiName) : Source :=
  let spec := ((Abc.ClassSpec.named "U").extendingMulti name).var "v" "int"
  let file := Abc.File.ofClasses [spec.getter "g" "int"]
  let inherited (t : Abc.TraitInfo) (supertype : Nat) : Abc.TraitInfo :=
    match t.data with
    | .slot isConst slot _ value => { t with data := .slot isConst slot supertype value }
    | _ => t
  let instances :=
    file.instances.map fun info => { info with traits := info.traits.map (inherited · info.superName) }
  let methods := file.methods.map fun m =>
    { m with returnType := (file.instances.map Abc.InstanceInfo.superName).headD 0 }
  ⟨"u.abc", "", Mime.abc, .ok ({ file with instances := instances, methods := methods } : Abc.File).encode⟩

/-- A block that defines a variable. -/
def global : Source :=
  let file := Abc.File.ofClasses [Abc.ClassSpec.named "a:T"]
  let asSlot (t : Abc.TraitInfo) : Abc.TraitInfo := { t with data := .slot false 0 0 none }
  let scripts := file.scripts.map fun script => { script with traits := script.traits.map asSlot }
  ⟨"a.abc", "", Mime.abc,
    .ok ({ file with instances := [], classes := [], scripts := scripts } : Abc.File).encode⟩

/-- The definition goes away, but a unit that is taken over still knows it. -/
def outdated : List Edit :=
  [.add global, .add (classSource "v.abc" ((Abc.ClassSpec.named "V").var "v" "a:T")), .build,
   .remove "a.abc", .add (classSource "b.abc" (Abc.ClassSpec.named "b:T")),
   .add (heir ⟨["a", "b"], "T"⟩ ((Abc.ClassSpec.named "U").var "v" "V"))]

/-- A block is first read as a bundle. -/
def misread : List Edit :=
  let block := doubled "u.abc" ((Abc.ClassSpec.named "en_US$u_properties").extending "q:Q")
  [.add { block with mime := Mime.properties }, .build, .add block]

/-- The types that the next build gives for a class, that of the supertype first and those of interfaces
    next. -/
def typesOf (edits : List Edit) (name : String) : Option (List String) :=
  ((after {} edits).published? name).map ClassDescriptor.typeTexts

/-- One name has two types: as a supertype or as that of a variable, and in other roles, if one candidate is
    builtin; as a supertype and as an interface, if the class that it means is not among the definitions of
    its source, or the definition that it means bears another name than its class, and the unit meets the
    class after its supertype is bound, or if a unit that is taken over still knows a definition that went
    away.  A class is not published at all if its source had been read as a bundle before. -/
theorem one_name_two_types :
    typesOf [.add (heir ⟨["x", ""], "Object"⟩ (Abc.ClassSpec.named "U"))] "U" = some ["Object", "x:Object"] ∧
    typesOf [.add (echo ⟨["x", ""], "String"⟩)] "U" = some ["String", "String", "x:String"] ∧
    typesOf [.add library, .add (base "w"),
      .add (heir ⟨["z", "w"], "Base"⟩ ((Abc.ClassSpec.named "U").var "v" "z:Shape"))] "U"
        = some ["w:Base", "z:Base", "z:Shape"] ∧
    typesOf [.add twofold, .add (target "y" "T"), .add (target "z" "T"),
      .add (heir ⟨["x", "y", "z"], "T"⟩ ((memberIn "U" "z:N").var "v" "y:N"))] "U"
        = some ["z:T", "y:T", "y:N"] ∧
    typesOf outdated "U" = some ["b:T", "a:T", "V"] ∧
    ((typesOf misread "en_US$u_properties").bind List.head? = some "mx.resources:ResourceBundle") := by
  decide +kernel

end Compilation

end AbcBuild
