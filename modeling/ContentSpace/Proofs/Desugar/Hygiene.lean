import ContentSpace.Proofs.Desugar.Resolution
import ContentSpace.Proofs.Desugar.Scoping
import ContentSpace.Proofs.Source.Name

/-!
# Hygiene of compiled programs

Every temporary variable and every label of a compiled program belongs to one expansion, wherever
expansions stand inside each other and in whichever block they are. Names of the source cannot be
captured: all of them are identifiers, and temporary names start with a mark that no identifier
starts with.
-/

namespace ContentSpace

open Desugaring Grammar Node

/-- The names of variables, bindings and tables that a node has itself. -/
def Node.names : Node → List String
  | .var name | .assign name _ _ | .assignLocal name _ | .sugar (.forLoop name _ _) => [name]
  | .store operation => [operation.table]
  | .sugar (.bind name table _) | .sugar (.bindContent name table _)
  | .sugar (.bindSnapshot name table) | .sugar (.bindInside name table _ _)
  | .sugar (.batch name table _ _) | .sugar (.scope name table _) => [name, table]
  | .sugar (.within table _) => [table]
  | _ => []

/-- No name of a variable, a binding or a table in a tree is temporary. -/
def Node.Plain (node : Node) : Prop :=
  ∀ inner ∈ node.descendants, ∀ name ∈ inner.names, Temporaries.isTemporary name = false

/-- A tree is plain when its root and its children are. -/
theorem Node.plain_iff {node : Node} : node.Plain ↔
    (∀ name ∈ node.names, Temporaries.isTemporary name = false) ∧
      ∀ child ∈ node.children, child.Plain :=
  forall_descendants_iff

/-- No name in a program is temporary. -/
structure Program.Plain (program : Program) : Prop where
  /-- The program does not have a temporary name. -/
  name : Temporaries.isTemporary program.name = false
  /-- No table has one. -/
  tables : ∀ table ∈ program.tables, Temporaries.isTemporary table = false
  /-- No block has one. -/
  blocks : ∀ block ∈ program.blocks, Temporaries.isTemporary block.name = false
  /-- No parameter has one. -/
  parameters : ∀ block ∈ program.blocks, ∀ parameter ∈ block.parameters,
    Temporaries.isTemporary parameter = false
  /-- No active table has one. -/
  activeTables : ∀ block ∈ program.blocks, ∀ table ∈ block.activeTable,
    Temporaries.isTemporary table = false
  /-- No variable, binding or table of a node has one. -/
  nodes : ∀ statement ∈ program.statements, statement.Plain

/-- A temporary variable of a program belongs to the expansion at a place: it is set there before it
is read, and it does not occur in the parts that were put into the expansion, nor anywhere else. -/
structure Program.Introduces (program : Program) (above : List Nat) (items : List Node)
    (first : Nat) (parts : List Node) (name : String) : Prop where
  /-- The expansion is a sequence in the program. -/
  stands : program.at? above = some (.sequence items)
  /-- The variable is one of those that the expansion introduces. -/
  expansion : ∃ temporaries,
    Node.Introduces (.sequence items) temporaries parts ∧ name ∈ temporaries
  /-- The parts neither set nor read it. -/
  apart : ∀ part ∈ parts, ∀ inner ∈ part.descendants,
    inner.binding? ≠ some name ∧ inner ≠ .var name
  /-- An item of the sequence sets it. -/
  start : ∃ value, items[first]? = some (.assignLocal name value)
  /-- No other node sets it unless it is inside a later item. -/
  sets : ∀ ⦃place node⦄, program.at? place = some node → node.binding? = some name →
    place = above ++ [first] ∨ ∃ j below, first < j ∧ place = above ++ j :: below
  /-- It is read inside later items only. -/
  reads : ∀ ⦃place⦄, program.at? place = some (.var name) →
    ∃ j below, first < j ∧ place = above ++ j :: below

/-- Temporary variables and labels of a program belong to one expansion each. -/
structure Program.Hygienic (program : Program) : Prop where
  /-- No two nodes carry one label. -/
  labels : ∀ ⦃place elsewhere label body other⦄, program.at? place = some (.labeled label body) →
    program.at? elsewhere = some (.labeled label other) → place = elsewhere
  /-- A jump is inside the body of the node with its label. -/
  jumps : ∀ ⦃place label⦄, program.at? place = some (.jump label) →
    ∃ above below body, program.at? above = some (.labeled label body) ∧ place = above ++ 0 :: below
  /-- Every label is entered again from one place. -/
  single : ∀ ⦃place label body⦄, program.at? place = some (.labeled label body) →
    ∃ jump, ∀ place, program.at? place = some (.jump label) ↔ place = jump
  /-- Every temporary variable that is set or read belongs to an expansion. -/
  temporaries : ∀ ⦃place node name⦄, program.at? place = some node →
    node.binding? = some name ∨ node = .var name → Temporaries.isTemporary name = true →
    ∃ above items first parts, program.Introduces above items first parts name

/-- No name in a tree that source text without temporary names stands for is temporary. -/
theorem Grammar.Built.plain {known : List String} {node : Node}
    (built : Built (fun name => Temporaries.isTemporary name = false) known node)
    (tables : ∀ table ∈ known, Temporaries.isTemporary table = false) : node.Plain := by
  induction built with
  | var plain =>
    exact plain_iff.mpr ⟨by simp [names, isTemporary_leadingPart, plain], by simp [children]⟩
  | @scope around name _ _ plain _ known _ ih =>
    have inner : ∀ table ∈ name :: around, Temporaries.isTemporary table = false :=
      List.forall_mem_cons.mpr ⟨plain, tables⟩
    refine plain_iff.mpr ⟨by simp [names, plain, tables _ known], fun child member => ?_⟩
    exact ih child member inner
  | _ => grind [plain_iff, names, children, Sugar.children]

/-- The names of a program that source text without temporary names stands for are not temporary. -/
theorem Grammar.BuiltProgram.plain {program : Program}
    (built : BuiltProgram (fun name => Temporaries.isTemporary name = false) program) :
    program.Plain where
  name := built.name
  tables := built.tables
  blocks block member := (built.blocks block member).name
  parameters block member := (built.blocks block member).parameters
  activeTables block member table active :=
    built.tables table ((built.blocks block member).activeTable table active)
  nodes statement member := by
    obtain ⟨block, inside, stands⟩ := List.mem_flatMap.mp member
    exact ((built.blocks block inside).body statement stands).plain built.tables

/-- No name of source text is temporary. -/
theorem Source.IsName.isTemporary {name : String} (identifier : Source.IsName name) :
    Temporaries.isTemporary name = false := by
  obtain ⟨first, rest, spelled, start, -⟩ := identifier
  have different : first ≠ Temporaries.mark := by
    rintro rfl
    revert start
    decide
  simp [Temporaries.isTemporary, spelled, different]

/-- All marks with one name in trees that are apart belong to one node and are not in its parts. -/
theorem Node.Spread.home {first last : Nat} {nodes : List Node} (spread : Spread first last nodes)
    {name : String} (occurs : ∃ place mark, HasMarkFrom 0 nodes place mark ∧ mark.name = name) :
    ∃ above inner own parts, atIn? nodes above = some inner ∧ Form inner own parts ∧
      (∀ part ∈ parts, ¬ part.2.Mentions name) ∧ Owned (HasMarkFrom 0 nodes) name above own := by
  have among {place : List Nat} {mark : Mark} :
      HasMarkAmong (row [] 0 nodes) place mark ↔ HasMarkFrom 0 nodes place mark := by simp
  have apart : (row [] 0 nodes).Pairwise fun part other => part.2.Apart other.2 := by
    rw [← List.pairwise_map, map_snd_row]
    exact spread.apart
  obtain ⟨place, mark, marked, rfl⟩ := occurs
  obtain ⟨part, member, inner, rfl, inside⟩ := among.mpr marked
  obtain ⟨i, here, stands⟩ := mem_row.mp member
  have well := spread.well part.2 (List.mem_of_getElem? here)
  have mentions : part.2.Mentions mark.name := ⟨inner, mark, inside, rfl⟩
  obtain ⟨above, home, own, parts, found, form, absent, owned⟩ := well.home mentions
  refine ⟨part.1 ++ above, home, own, parts, ?_, form, absent, fun other same place => ?_⟩
  · rw [stands]
    simpa using atIn?_cons_eq_some.mpr ⟨part.2, here, found⟩
  · rw [← among]
    exact owned.among apart member mentions other same place

/-- Two kinds of marks with one name in trees that are apart belong to one node, which has a mark of
one of the kinds when there is one. -/
theorem Node.Spread.home_of_either {first last : Nat} {nodes : List Node}
    (spread : Spread first last nodes) {mark other : Mark} {place : List Nat}
    (marked : HasMarkFrom 0 nodes place mark ∨ HasMarkFrom 0 nodes place other)
    (same : other.name = mark.name) :
    ∃ above inner own parts, atIn? nodes above = some inner ∧ Form inner own parts ∧
      (∀ part ∈ parts, ¬ part.2.Mentions mark.name) ∧
      (∃ below, (below, mark) ∈ own ∨ (below, other) ∈ own) ∧
      (∀ place, HasMarkFrom 0 nodes place mark ↔
        ∃ below, place = above ++ below ∧ (below, mark) ∈ own) ∧
      ∀ place, HasMarkFrom 0 nodes place other ↔
        ∃ below, place = above ++ below ∧ (below, other) ∈ own := by
  obtain ⟨above, inner, own, parts, stands, form, absent, all⟩ :=
    spread.home ⟨place, marked.elim (⟨mark, ·, rfl⟩) (⟨other, ·, same⟩)⟩
  refine ⟨above, inner, own, parts, stands, form, absent, ?_, all mark rfl, all other same⟩
  rcases marked with marked | marked
  · obtain ⟨below, -, belongs⟩ := (all mark rfl place).mp marked
    exact ⟨below, .inl belongs⟩
  · obtain ⟨below, -, belongs⟩ := (all other same place).mp marked
    exact ⟨below, .inr belongs⟩

/-- A label in trees that are apart is at one place, and it is entered again from one place in the
body of the labeled node. -/
theorem Node.Spread.label {first last : Nat} {nodes : List Node} (spread : Spread first last nodes)
    {label : String} {place : List Nat} (marked : HasMarkFrom 0 nodes place (.labels label) ∨
      HasMarkFrom 0 nodes place (.jumps label)) :
    ∃ above below, (∀ place, HasMarkFrom 0 nodes place (.labels label) ↔ place = above) ∧
      ∀ place, HasMarkFrom 0 nodes place (.jumps label) ↔ place = above ++ 0 :: below := by
  obtain ⟨above, home, own, parts, -, form, -, ⟨inner, belongs⟩, labels, jumps⟩ :=
    spread.home_of_either marked rfl
  obtain ⟨top, below, labeled, entered⟩ := form.of_label belongs
  refine ⟨above ++ top, below, fun place => ?_, fun place => ?_⟩
  · simp [labels, labeled]
  · simp [jumps, entered]

section

variable {program : Program} {first last : Nat} (spread : Spread first last program.statements)
include spread

/-- A temporary variable in trees that are apart belongs to an expansion. -/
theorem Program.exists_introduces {name : String} (temporary : Temporaries.isTemporary name = true)
    {place : List Nat} {node : Node} (here : program.at? place = some node)
    (uses : node.binding? = some name ∨ node = .var name) :
    ∃ above items first parts, program.Introduces above items first parts name := by
  have marked : HasMarkFrom 0 program.statements place (.sets name) ∨
      HasMarkFrom 0 program.statements place (.reads name) := by
    refine uses.imp (fun binds => ?_) fun same => ?_
    · exact hasMarkFrom_zero_iff.mpr ⟨node, here, mark?_eq_sets.mpr ⟨temporary, binds⟩⟩
    · exact hasMarkFrom_zero_iff.mpr ⟨node, here, mark?_eq_reads.mpr ⟨temporary, same⟩⟩
  obtain ⟨above, home, own, parts, stands, form, absent, ⟨inner, belongs⟩, sets, reads⟩ :=
    spread.home_of_either marked rfl
  obtain ⟨items, temporaries, start, value, rfl, introduces, member, started, later, after⟩ :=
    form.of_variable belongs
  refine ⟨above, items, start, parts.map Prod.snd, stands, ⟨temporaries, introduces, member⟩, ?_,
    ⟨value, started⟩, ?_, ?_⟩
  · intro part listed inner occurs
    obtain ⟨entry, inside, rfl⟩ := List.mem_map.mp listed
    obtain ⟨below, found⟩ := mem_descendants_iff_at?.mp occurs
    refine ⟨fun binds => ?_, fun same => ?_⟩
    · have marked : entry.2.HasMark below (.sets name) := by
        rw [HasMark, found]
        exact mark?_eq_sets.mpr ⟨temporary, binds⟩
      exact absent entry inside ⟨below, _, marked, rfl⟩
    · have marked : entry.2.HasMark below (.reads name) := by
        rw [HasMark, found]
        exact mark?_eq_reads.mpr ⟨temporary, same⟩
      exact absent entry inside ⟨below, _, marked, rfl⟩
  · intro place node here binds
    have marked := hasMarkFrom_zero_iff.mpr ⟨node, here, mark?_eq_sets.mpr ⟨temporary, binds⟩⟩
    obtain ⟨below, rfl, belongs⟩ := (sets place).mp marked
    rcases later below belongs with rfl | ⟨j, below, beyond, rfl⟩
    · exact .inl rfl
    · exact .inr ⟨j, below, beyond, rfl⟩
  · intro place here
    have marked := hasMarkFrom_zero_iff.mpr ⟨_, here, mark?_eq_reads.mpr ⟨temporary, rfl⟩⟩
    obtain ⟨below, rfl, belongs⟩ := (reads place).mp marked
    obtain ⟨j, below, beyond, rfl⟩ := after below belongs
    exact ⟨j, below, beyond, rfl⟩

/-- Trees that are apart are a hygienic program. -/
theorem Program.hygienic_of_spread : program.Hygienic where
  labels place elsewhere label body other here there := by
    have marked : HasMarkFrom 0 program.statements place (.labels label) :=
      hasMarkFrom_zero_iff.mpr ⟨_, here, rfl⟩
    have markedToo : HasMarkFrom 0 program.statements elsewhere (.labels label) :=
      hasMarkFrom_zero_iff.mpr ⟨_, there, rfl⟩
    obtain ⟨above, below, labels, -⟩ := spread.label (.inl marked)
    rw [(labels place).mp marked, (labels elsewhere).mp markedToo]
  jumps place label here := by
    have marked : HasMarkFrom 0 program.statements place (.jumps label) :=
      hasMarkFrom_zero_iff.mpr ⟨_, here, rfl⟩
    obtain ⟨above, below, labels, jumps⟩ := spread.label (.inr marked)
    obtain ⟨node, stands, carries⟩ := hasMarkFrom_zero_iff.mp ((labels above).mpr rfl)
    obtain ⟨body, rfl⟩ := mark?_eq_labels.mp carries
    exact ⟨above, below, body, stands, (jumps place).mp marked⟩
  single place label body here := by
    have marked : HasMarkFrom 0 program.statements place (.labels label) :=
      hasMarkFrom_zero_iff.mpr ⟨_, here, rfl⟩
    obtain ⟨above, below, labels, jumps⟩ := spread.label (.inl marked)
    refine ⟨above ++ 0 :: below, fun jump => ?_⟩
    rw [← jumps jump, hasMarkFrom_zero_iff]
    simp only [mark?_eq_jumps, exists_eq_right]
    rfl
  temporaries place node name here uses temporary :=
    exists_introduces spread temporary here uses

end

/-- The temporary variables and the labels of a compiled program belong to one expansion each, and
the program it was desugared from has no temporary name. -/
theorem compile_hygienic {settings : Settings} {source : String} {program : Program}
    (compiled : compile settings source = .ok program) :
    program.Hygienic ∧
      ∃ parsed, parseProgram settings source = .ok parsed ∧
        (parsed.desugar.run {}).1 = program ∧ parsed.Plain := by
  obtain ⟨parsed, run, rfl⟩ := exists_of_compile compiled
  have built : BuiltProgram (fun name => Temporaries.isTemporary name = false) parsed :=
    parseProgram_built (fun token member kind =>
      (Source.isName_of_mem_tokens member kind).isTemporary) run
  obtain ⟨statements, -⟩ := Program.of_gives_desugar (exists_gives parsed.desugar {})
  have scopes : ∀ node ∈ parsed.statements, Scopes node := by
    intro node member
    obtain ⟨block, inside, stands⟩ := List.mem_flatMap.mp member
    exact ((built.blocks block inside).body node stands).scopes
  have spread := Scopes.all scopes statements
  exact ⟨Program.hygienic_of_spread spread, parsed, run, rfl, built.plain⟩

/-- A name for a handle inside a loop over a collection sets a temporary variable of its own. -/
theorem compile_hygienic_bind_inside_loop :
    let source :=
      "program p\x7blatent table t;block b()using t\x7bfor(x in [1])\x7blatent y=x;\x7d\x7d\x7d"
    ∃ program, compile {} source = .ok program ∧
      (program.at? [0, 0]).bind Node.binding? = some "$coll0" ∧
      (program.at? [0, 2, 0, 2, 0]).bind Node.binding? = some "$bind2" ∧ program.Hygienic ∧
      ∃ parsed, parseProgram {} source = .ok parsed ∧
        (parsed.desugar.run {}).1 = program ∧ parsed.Plain := by
  intro source
  have seen : ((compile {} source).toOption.map fun program =>
      ((program.at? [0, 0]).bind Node.binding?,
        (program.at? [0, 2, 0, 2, 0]).bind Node.binding?)) =
      some (some "$coll0", some "$bind2") := by
    decide +kernel
  obtain ⟨program, compiled, facts⟩ := Option.map_eq_some_iff.mp seen
  have compiled := ok_of_toOption_eq_some compiled
  obtain ⟨outer, inner⟩ := Prod.mk.inj facts
  exact ⟨program, compiled, outer, inner, compile_hygienic compiled⟩

end ContentSpace
