import ContentSpace.Proofs.Grammar.Program
import ContentSpace.Proofs.Grammar.Spelling.RoundTrip
import ContentSpace.Proofs.Tree.Walk

/-!
# Names of parsed programs

An identifier of source text may hold dots, and only the whole of it is compared with the reserved
words. What takes an identifier decides about its dots: a variable is the part before the first dot,
a name that is bound again must not have one, and every other binding takes the identifier as it is.
So a variable never has a dot, but it can be a reserved word. A bound name is never reserved, but it
can have dots, and then it is no variable.
-/

namespace ContentSpace

/-- Source text has an identifier with this text. -/
def Source.Identifies (settings : Settings) (source word : String) : Prop :=
  ∃ token ∈ tokens settings source, token.kind = .identifier ∧ token.text = word

/-- The name that a node reads, as a variable. -/
def Node.readName? : Node → Option String
  | .var name => some name
  | _ => none

/-- The name that a node binds, for a statement or for its body. -/
def Node.boundName? : Node → Option String
  | .assign name _ _ | .assignLocal name _ | .sugar (.forLoop name _ _)
  | .sugar (.bind name _ _) | .sugar (.bindContent name _ _) | .sugar (.bindSnapshot name _)
  | .sugar (.bindInside name _ _ _) | .sugar (.batch name _ _ _) | .sugar (.scope name _ _) =>
    some name
  | _ => none

namespace Program

/-- The nodes of a program. -/
def nodes (program : Program) : List Node := program.statements.flatMap Node.descendants

/-- The variables of a program. -/
def variableNames (program : Program) : List String := program.nodes.filterMap Node.readName?

/-- The names that statements of a program bind, and the parameters of its blocks. -/
def boundNames (program : Program) : List String :=
  program.nodes.filterMap Node.boundName? ++ program.blocks.flatMap Block.parameters

/-- All variables and bound names of a program are plain names. -/
def PlainlyNamed (program : Program) : Prop :=
  ∀ name ∈ program.variableNames ++ program.boundNames, Source.IsPlainName name

end Program

namespace Grammar

/-- The first part of a name is the name up to its first dot. -/
theorem toList_leadingPart (name : String) :
    (leadingPart name).toList = name.toList.takeWhile (· != '.') := by
  have parts (characters : List Char) : ∃ others,
      dotParts characters = characters.takeWhile (· != '.') :: others := by
    induction characters with
    | nil => exact ⟨[], rfl⟩
    | cons c rest ih =>
      obtain ⟨others, split⟩ := ih
      by_cases dot : c = '.'
      · exact ⟨dotParts rest, by simp [dotParts, dot]⟩
      · exact ⟨others, by simp [dotParts, dot, split]⟩
  obtain ⟨others, split⟩ := parts name.toList
  rw [leadingPart, nameParts, split, List.map_cons, List.headD_cons, String.toList_ofList]

/-- A name without a dot is its first part. -/
theorem leadingPart_of_dotless {name : String} (dotless : '.' ∉ name.toList) :
    leadingPart name = name := by
  rw [leadingPart, nameParts_of_dotless dotless, List.headD_cons]

/-- The first part of a name is a name without a dot. -/
theorem isName_leadingPart {name : String} (named : Source.IsName name) :
    Source.IsName (leadingPart name) ∧ '.' ∉ (leadingPart name).toList := by
  rw [toList_leadingPart]
  obtain ⟨first, rest, characters, letter, inside⟩ := named
  have undotted : (first != '.') = true := by
    rw [bne_iff_ne]
    rintro rfl
    revert letter
    decide
  constructor
  · refine ⟨first, rest.takeWhile (· != '.'), ?_, letter, fun c member => ?_⟩
    · rw [toList_leadingPart, characters, List.takeWhile_cons, if_pos undotted]
    · exact inside c ((List.takeWhile_prefix _).subset member)
  · intro member
    simpa using List.mem_takeWhile_imp member

/-- The names of a node come from identifiers, given which texts are identifiers. -/
@[mk_iff]
structure NamesFrom (isName : String → Prop) (node : Node) : Prop where
  /-- A variable is the first part of an identifier. -/
  read : ∀ name ∈ node.readName?, ∃ word, isName word ∧ leadingPart word = name
  /-- A bound name is an identifier. -/
  bound : ∀ name ∈ node.boundName?, isName name
  /-- A name that is bound again has no dot. -/
  again : ∀ name value, node = .assign name value false → '.' ∉ name.toList

/-- The names in a tree come from identifiers. -/
def AllNamesFrom (isName : String → Prop) (node : Node) : Prop :=
  ∀ inner ∈ node.descendants, NamesFrom isName inner

/-- The names in a tree come from identifiers when those of its root and its children do. -/
theorem allNamesFrom_iff {isName : String → Prop} {node : Node} : AllNamesFrom isName node ↔
    NamesFrom isName node ∧ ∀ child ∈ node.children, AllNamesFrom isName child :=
  Node.forall_descendants_iff

/-- The names in a tree that source text stands for come from identifiers. -/
theorem Built.allNamesFrom {isName : String → Prop} {known : List String} {node : Node}
    (built : Built isName known node) : AllNamesFrom isName node := by
  induction built with
  | @var _ word named =>
    have read : NamesFrom isName (.var (leadingPart word)) :=
      ⟨by simpa [Node.readName?] using ⟨word, named, rfl⟩, by simp [Node.boundName?], nofun⟩
    exact allNamesFrom_iff.mpr ⟨read, by simp [Node.children]⟩
  | _ =>
    -- All other names are identifiers as they are; a stage that awaits its operand has none.
    grind [allNamesFrom_iff, namesFrom_iff, Node.readName?, Node.boundName?, Node.children,
      Sugar.children]

namespace BuiltProgram

variable {isName : String → Prop} {program : Program} {name : String}
  (built : BuiltProgram isName program)
include built

/-- The names of every node of a program that source text stands for come from identifiers. -/
theorem namesFrom {node : Node} (member : node ∈ program.nodes) : NamesFrom isName node := by
  obtain ⟨statement, stands, inside⟩ := List.mem_flatMap.mp member
  obtain ⟨block, listed, here⟩ := List.mem_flatMap.mp stands
  exact ((built.blocks block listed).body statement here).allNamesFrom node inside

/-- A variable of a program that source text stands for is the first part of an identifier. -/
theorem of_mem_variableNames (member : name ∈ program.variableNames) :
    ∃ word, isName word ∧ leadingPart word = name := by
  obtain ⟨node, inside, read⟩ := List.mem_filterMap.mp member
  exact (built.namesFrom inside).read name read

/-- A bound name of a program that source text stands for is an identifier. -/
theorem of_mem_boundNames (member : name ∈ program.boundNames) : isName name := by
  rcases List.mem_append.mp member with statement | parameter
  · obtain ⟨node, inside, bound⟩ := List.mem_filterMap.mp statement
    exact (built.namesFrom inside).bound name bound
  · obtain ⟨block, inside, listed⟩ := List.mem_flatMap.mp parameter
    exact (built.blocks block inside).parameters name listed

end BuiltProgram

end Grammar

open Grammar

variable {settings : Settings} {source : String} {program : Program} {name word : String}

/-- An identifier of source text is a name that is not reserved. -/
theorem Source.Identifies.isName (identifies : Source.Identifies settings source word) :
    Source.IsName word ∧ word ∉ Source.reservedWords := by
  obtain ⟨token, member, kind, rfl⟩ := identifies
  simpa using Source.identifier_of_mem_tokens member kind

/-- A name that is not reserved is plain unless it has a dot. -/
theorem Source.IsName.isPlainName_iff (named : Source.IsName name)
    (free : name ∉ Source.reservedWords) : Source.IsPlainName name ↔ '.' ∉ name.toList :=
  ⟨Source.IsPlainName.dotless, fun dotless => ⟨named, dotless, by simpa using free⟩⟩

/-- A plain name is read as the variable. -/
theorem parseExpression_of_isPlainName (plain : Source.IsPlainName name) (scope : Scope) :
    parseExpression {} scope name = .ok (.var name) := by
  have room : [Word.identifier name].length ≤ ({} : Settings).maxDepth := by
    rw [List.length_singleton]
    decide
  exact parseExpression_of_spelling (.var plain) (by decide) room

section

variable (built : BuiltProgram (Source.Identifies settings source) program)
include built

/-- A variable is a name without a dot, and reserved words are only the first parts of identifiers
with dots. -/
theorem Grammar.BuiltProgram.isName_of_mem_variableNames (member : name ∈ program.variableNames) :
    Source.IsName name ∧ '.' ∉ name.toList ∧
      (name ∈ Source.reservedWords → ∃ word, Source.Identifies settings source word ∧
        '.' ∈ word.toList ∧ leadingPart word = name) := by
  obtain ⟨word, identifies, rfl⟩ := built.of_mem_variableNames member
  obtain ⟨named, free⟩ := identifies.isName
  obtain ⟨first, dotless⟩ := isName_leadingPart named
  refine ⟨first, dotless, fun reserved => ⟨word, identifies, ?_, rfl⟩⟩
  by_contra undotted
  rw [leadingPart_of_dotless undotted] at reserved
  exact free reserved

/-- The names of a program are plain when no variable is reserved and no bound name has a dot. -/
theorem Grammar.BuiltProgram.plainlyNamed_iff : program.PlainlyNamed ↔
    (∀ name ∈ program.variableNames, name ∉ Source.reservedWords) ∧
      ∀ name ∈ program.boundNames, '.' ∉ name.toList := by
  rw [Program.PlainlyNamed, List.forall_mem_append]
  refine and_congr (forall₂_congr fun name member => ?_) (forall₂_congr fun name member => ?_)
  · obtain ⟨named, dotless, -⟩ := built.isName_of_mem_variableNames member
    constructor
    · exact fun plain => by simpa using plain.free
    · exact fun free => (named.isPlainName_iff free).mpr dotless
  · obtain ⟨named, free⟩ := (built.of_mem_boundNames member).isName
    exact named.isPlainName_iff free

end

/-- In a parsed program every variable is a name without a dot, and it is reserved only as the first
part of an identifier with dots. Every name that a statement binds and every parameter is an
identifier and not reserved, and without a dot it is read back as the variable. Names that are bound
again are plain. So all these names are plain exactly when no variable is reserved and no bound name
has a dot, and this is so when no identifier of the source has one. -/
theorem names_of_parseProgram (parsed : parseProgram settings source = .ok program) :
    (∀ name ∈ program.variableNames, Source.IsName name ∧ '.' ∉ name.toList ∧
      (name ∈ Source.reservedWords → ∃ word, Source.Identifies settings source word ∧
        '.' ∈ word.toList ∧ leadingPart word = name)) ∧
    (∀ name ∈ program.boundNames, Source.Identifies settings source name ∧
      Source.IsName name ∧ name ∉ Source.reservedWords ∧
      ('.' ∉ name.toList → ∀ scope, parseExpression {} scope name = .ok (.var name))) ∧
    (∀ name value, .assign name value false ∈ program.nodes → Source.IsPlainName name) ∧
    (program.PlainlyNamed ↔ (∀ name ∈ program.variableNames, name ∉ Source.reservedWords) ∧
      ∀ name ∈ program.boundNames, '.' ∉ name.toList) ∧
    ((∀ word, Source.Identifies settings source word → '.' ∉ word.toList) →
      program.PlainlyNamed) := by
  have built : BuiltProgram (Source.Identifies settings source) program :=
    parseProgram_built (fun token member kind => ⟨token, member, kind, rfl⟩) parsed
  refine ⟨fun name => built.isName_of_mem_variableNames, ?_, ?_, built.plainlyNamed_iff, ?_⟩
  · intro name member
    have identifies := built.of_mem_boundNames member
    obtain ⟨named, free⟩ := identifies.isName
    refine ⟨identifies, named, free, fun dotless => ?_⟩
    exact parseExpression_of_isPlainName ((named.isPlainName_iff free).mpr dotless)
  · intro name value member
    have names := built.namesFrom member
    obtain ⟨named, free⟩ := (names.bound name rfl).isName
    exact (named.isPlainName_iff free).mpr (names.again name value rfl)
  · intro dotless
    refine built.plainlyNamed_iff.mpr ⟨fun name member reserved => ?_, fun name member => ?_⟩
    · obtain ⟨-, -, whole⟩ := built.isName_of_mem_variableNames member
      obtain ⟨word, identifies, dotted, -⟩ := whole reserved
      exact dotless word identifies dotted
    · exact dotless name (built.of_mem_boundNames member)

/-- A program that reads a field of its parameter and binds names in a loop and in a table has plain
names only, although one of its identifiers has a dot. -/
theorem names_of_parseProgram_field :
    let source :=
      "program p\x7blatent table t;block b(x)using t\x7bfor(y in x.i)\x7blatent z=y;\x7d\x7d\x7d"
    ∃ program, parseProgram {} source = .ok program ∧ program.variableNames = ["x", "y"] ∧
      program.boundNames = ["y", "z", "x"] ∧ program.PlainlyNamed := by
  intro source
  have seen : ((parseProgram {} source).toOption.map fun program =>
      (program.variableNames, program.boundNames)) = some (["x", "y"], ["y", "z", "x"]) := by
    decide +kernel
  obtain ⟨program, parsed, names⟩ := Option.map_eq_some_iff.mp seen
  obtain ⟨read, bound⟩ := Prod.mk.inj names
  have parsed := ok_of_toOption_eq_some parsed
  obtain ⟨-, -, -, plain, -⟩ := names_of_parseProgram parsed
  refine ⟨program, parsed, read, bound, plain.mpr ?_⟩
  rw [read, bound]
  decide

/-- A name with a dot can be bound, and then it is not plain; and the keyword in front of a dot is
read as a variable. -/
theorem parseProgram_binds_dotted_name :
    let binding := "program p \x7b block m() \x7b let a.b = 1; \x7d \x7d"
    let reading := "program p \x7b block m() \x7b return true.x; \x7d \x7d"
    (∃ program, parseProgram {} binding = .ok program ∧
      "a.b" ∈ program.boundNames ∧ ¬ program.PlainlyNamed) ∧
    ∃ program, parseProgram {} reading = .ok program ∧
      "true" ∈ program.variableNames ∧ ¬ program.PlainlyNamed := by
  intro binding reading
  have bound : (parseProgram {} binding).toOption.map Program.boundNames = some ["a.b"] := by
    decide +kernel
  have read : (parseProgram {} reading).toOption.map Program.variableNames = some ["true"] := by
    decide +kernel
  obtain ⟨program, parsed, names⟩ := Option.map_eq_some_iff.mp bound
  obtain ⟨other, parsedToo, variableNames⟩ := Option.map_eq_some_iff.mp read
  have dotted : "a.b" ∈ program.boundNames := by simp [names]
  have reserved : "true" ∈ other.variableNames := by simp [variableNames]
  refine ⟨⟨program, ok_of_toOption_eq_some parsed, dotted, fun plain => ?_⟩,
    other, ok_of_toOption_eq_some parsedToo, reserved, fun plain => ?_⟩
  · exact (plain _ (List.mem_append_right _ dotted)).dotless (by decide)
  · exact absurd (plain _ (List.mem_append_left _ reserved)).free (by decide)

end ContentSpace
