import ContentSpace.Grammar.Program
import ContentSpace.Proofs.Grammar.Statement

/-!
# What programs build

A program that source text consists of has blocks of trees that source text stands for. All its
names are identifiers of the source, and its blocks know its declared tables.
-/

namespace ContentSpace

namespace Grammar

/-- A block that source text stands for, given which texts are names and which tables are known. -/
structure BuiltBlock (isName : String → Prop) (known : List String) (block : Block) : Prop where
  /-- Its name is one. -/
  name : isName block.name
  /-- Its parameters are names. -/
  parameters : ∀ parameter ∈ block.parameters, isName parameter
  /-- Its active table is known. -/
  activeTable : ∀ table ∈ block.activeTable, table ∈ known
  /-- Its statements are trees that source text stands for. -/
  body : ∀ node ∈ block.body, Built isName known node

/-- A program that source text stands for, given which texts are names. -/
structure BuiltProgram (isName : String → Prop) (program : Program) : Prop where
  /-- Its name is one. -/
  name : isName program.name
  /-- Its tables have names. -/
  tables : ∀ table ∈ program.tables, isName table
  /-- Its blocks are blocks that source text stands for. -/
  blocks : ∀ block ∈ program.blocks, BuiltBlock isName program.tables block

/-- Between blocks, no scope is open, no table is active, and the declared tables have names. -/
structure Declares (isName : String → Prop) (env : Environment) : Prop where
  /-- No scope is open. -/
  opened : env.scope.opened = []
  /-- No table is active. -/
  active : env.scope.active = []
  /-- The declared tables have names. -/
  declared : ∀ table ∈ env.scope.declared, isName table

variable {isName : String → Prop} {env : Environment}

namespace Declares

variable (declares : Declares isName env)
include declares

/-- Between blocks, the known tables are the declared ones. -/
theorem known_eq : env.scope.known = env.scope.declared := by
  rw [Scope.known, declares.opened, List.nil_append]

/-- Between blocks, no table is active that is not known. -/
theorem grounded : env.scope.Grounded := by
  simp [Scope.Grounded, declares.active]

/-- A further declaration keeps no scope open and no table active. -/
theorem declare {scope : Scope} {name : String} {line : Nat} (named : isName name)
    (declared : env.scope.declare name line = .ok scope) :
    Declares isName { env with scope } := by
  unfold Scope.declare at declared
  split at declared
  case isTrue => cases declared
  case isFalse =>
    split at declared
    case isTrue => cases declared
    case isFalse =>
      cases declared
      refine ⟨declares.opened, declares.active, ?_⟩
      exact List.forall_mem_append.mpr ⟨declares.declared, List.forall_mem_singleton.mpr named⟩

end Declares

/-- A declaration takes the name of a table. -/
theorem declaration_ensures : (declaration env).Ensures (Spells isName)
    fun name => isName name.text := by
  refine .andThen keyword_ensures fun _ _ => .skip keyword_ensures fun _ => ?_
  refine .bind (.consumer name_ensures) fun name ⟨spells, kind⟩ => ?_
  exact .skip symbol_ensures fun _ => .pure (spells kind)

/-- What one declaration keeps, all declarations keep. -/
theorem declarations_keep {test : Token → Prop} {property : Environment → Prop}
    (keeps : ∀ env, property env → ((declaration env).andThen fun name =>
      .check (env.scope.declare name.text name.line)).Ensures test
        fun scope => property { env with scope })
    (holds : property env) : (declarations env).Ensures test property := by
  intro source
  induction size : source.length using Nat.strongRecOn generalizing source env with
  | ind size ih =>
    intro parsed passed run
    rw [declarations] at run
    split at run
    · obtain ⟨first, runFirst, run⟩ := ok_of_bind_eq_ok run
      obtain ⟨others, runOthers, run⟩ := ok_of_bind_eq_ok run
      cases run
      have shorter := first.shorter
      obtain ⟨here, middle⟩ := keeps env holds passed runFirst
      exact ih first.rest.length (by omega) here rfl middle runOthers
    · cases run
      exact ⟨holds, passed⟩

/-- Declarations give an environment in which blocks can be read. -/
theorem declarations_ensures (declares : Declares isName env) :
    (declarations env).Ensures (Spells isName) (Declares isName) :=
  declarations_keep (fun _ declares => .andThen declaration_ensures fun _ named =>
    .check fun _ => declares.declare named) declares

/-- A parameter is a name. -/
theorem parameter_ensures {block : String} {before : List String} :
    (parameter env block before).Ensures (Spells isName) isName := by
  refine .andThen name_ensures fun name ⟨spells, kind⟩ => ?_
  split
  · exact .refuse
  · exact .pure (spells kind)

/-- What one parameter after others keeps, all parameters keep. -/
theorem furtherParameters_keep {test : Token → Prop} {block : String}
    {property : List String → Prop}
    (keeps : ∀ before, property before →
      (parameter env block before).Ensures test fun next => property (before ++ [next]))
    {before : List String} (holds : property before) :
    (furtherParameters env block before).Ensures test property := by
  intro source
  induction size : source.length using Nat.strongRecOn generalizing source before with
  | ind size ih =>
    intro parsed passed run
    rw [furtherParameters] at run
    split at run
    · obtain ⟨next, runNext, run⟩ := ok_of_bind_eq_ok run
      obtain ⟨all, runAll, run⟩ := ok_of_bind_eq_ok run
      cases run
      have shorter := next.shorter
      have taken : ((symbol env ",").andThen fun _ => liftM (parameter env block before)).Ensures
          test fun next => property (before ++ [next]) :=
        .andThen symbol_ensures fun _ _ => .consumer (keeps before holds)
      obtain ⟨here, middle⟩ := taken passed runNext
      exact ih next.rest.length (by omega) here rfl middle runAll
    · cases run
      exact ⟨holds, passed⟩

/-- All parameters are names when those before are. -/
theorem furtherParameters_ensures {block : String} {before : List String}
    (named : ∀ parameter ∈ before, isName parameter) :
    (furtherParameters env block before).Ensures (Spells isName)
      fun parameters => ∀ parameter ∈ parameters, isName parameter :=
  furtherParameters_keep (fun _ named => parameter_ensures.weaken fun _ here =>
    List.forall_mem_append.mpr ⟨named, List.forall_mem_singleton.mpr here⟩) named

/-- The parameters of a block are names. -/
theorem parameters_ensures {block : String} :
    (parameters env block).Ensures (Spells isName)
      fun parameters => ∀ parameter ∈ parameters, isName parameter := by
  refine .andThen symbol_ensures fun _ _ => .peek fun next => ?_
  split
  · exact .skip symbol_ensures fun _ => .pure (by simp)
  · refine .bind (.consumer parameter_ensures) fun first named => ?_
    have first := List.forall_mem_singleton.mpr named
    refine .bind (furtherParameters_ensures first) fun all each => ?_
    exact .skip symbol_ensures fun _ => .pure each

/-- The active table of a block is known. -/
theorem activeTable_ensures : (activeTable env).Ensures (Spells isName)
    fun active => ∀ table ∈ active, table ∈ env.scope.known := by
  refine .peek fun next => ?_
  split
  · refine .skip keyword_ensures fun _ => .bind (.consumer name_ensures) fun word _ => ?_
    refine .bind (.check fun table => Scope.of_require) fun table ⟨_, known⟩ => ?_
    exact .pure (by simpa using known)
  · exact .pure (by simp)

/-- A block is one that source text stands for. -/
theorem block_ensures (declares : Declares isName env) :
    (block env).Ensures (Spells isName) (BuiltBlock isName env.scope.declared) := by
  refine .andThen keyword_ensures fun _ _ => ?_
  refine .bind (.consumer name_ensures) fun name ⟨spells, kind⟩ => ?_
  refine .bind (.consumer parameters_ensures) fun parameters named => ?_
  refine .bind activeTable_ensures fun active known => ?_
  have within : (active.elim env env.within).scope.Grounded ∧
      (active.elim env env.within).scope.known = env.scope.known := by
    cases active with
    | none => exact ⟨declares.grounded, rfl⟩
    | some table => exact ⟨declares.grounded.activate (known table rfl), rfl⟩
  refine .bind (.consumer (body_builds within.1 (statement_builds env.limit))) fun body built => ?_
  rw [within.2, declares.known_eq] at built
  rw [declares.known_eq] at known
  exact .pure ⟨spells kind, named, known, built⟩

/-- A block of a program is one that source text stands for. -/
theorem blockOf_ensures (declares : Declares isName env) {program : String} :
    (blockOf env program).Ensures (Spells isName) (BuiltBlock isName env.scope.declared) := by
  intro source consumed passed run
  unfold blockOf at run
  split at run
  · have late : (lateDeclaration env).Ensures (Spells isName)
        (BuiltBlock isName env.scope.declared) :=
      .andThen declaration_ensures fun _ _ => .refuse
    exact late passed run
  · exact (block_ensures declares).mapFailure passed run

/-- A program is one that source text stands for. -/
theorem program_ensures (declares : Declares isName env) :
    (program env).Ensures (Spells isName) (BuiltProgram isName) := by
  refine .bind (declarations_ensures declares) fun env declares => .skip keyword_ensures fun _ => ?_
  refine .bind (.consumer name_ensures) fun name ⟨spells, kind⟩ => .skip symbol_ensures fun _ => ?_
  refine .bind (declarations_ensures declares) fun env declares => ?_
  refine .bind (itemsUntil_ensures (blockOf_ensures declares)) fun blocks built => ?_
  refine .skip symbol_ensures fun _ => ?_
  have looked : Parser.Ensures (Spells isName) (atDeclaration <$> Parser.ahead) fun _ => True :=
    .bind .ahead fun _ _ => .pure trivial
  refine .bind looked fun late _ => ?_
  split
  · exact .consumer (.andThen declaration_ensures fun _ _ => .refuse)
  · exact .bind atEnd_ensures fun _ _ => .pure ⟨spells kind, declares.declared, built⟩

end Grammar

/-- What is read has every property that its parser ensures. -/
theorem Grammar.of_read {α : Type} {settings : Settings} {scope : Scope} {source : String}
    {parser : Environment → Parser α} {test : Token → Prop} {property : α → Prop} {result : α}
    (ensures : (parser (start settings scope source)).Ensures test property)
    (passed : ∀ token ∈ Source.tokens settings source, test token)
    (found : read settings scope source parser = .ok result) : property result := by
  unfold read at found
  cases run : parser (start settings scope source) (Source.tokens settings source) with
  | error failure =>
    rw [run] at found
    cases found
  | ok parsed =>
    rw [run] at found
    cases found
    exact (ensures passed run).1

/-- A program that was parsed is one that source text stands for, its names being the identifiers of
the source. -/
theorem parseProgram_built {settings : Settings} {source : String} {program : Program}
    {isName : String → Prop}
    (identifiers : ∀ token ∈ Source.tokens settings source, token.kind = .identifier →
      isName token.text)
    (parsed : parseProgram settings source = .ok program) :
    Grammar.BuiltProgram isName program :=
  Grammar.of_read (Grammar.program_ensures ⟨rfl, rfl, by simp [Grammar.start]⟩) identifiers parsed

end ContentSpace
