import ContentSpace.Proofs.Grammar.Program
import ContentSpace.Proofs.Grammar.Trace.Program
import ContentSpace.Proofs.Tree.Place

/-!
# Declarations of tables

The tables of a program are those its source declares, in order: every place where the two keywords
of a declaration stand in a row counts, wherever that is. All of them stand before the first block,
and no name is declared twice. Scopes in blocks have names of their own.
-/

namespace ContentSpace

namespace Grammar

/-! ## Tables -/

/-- The name that follows the two keywords of a declaration, if tokens start with these. -/
def declaredAt? : List Token → Option String
  | latent :: table :: name :: _ =>
    if latent.isKeyword "latent" && table.isKeyword "table" then some name.text else none
  | _ => none

/-- The names that follow the two keywords of a declaration, wherever these stand in a row. -/
def announced : List Token → List String
  | [] => []
  | first :: rest => (declaredAt? (first :: rest)).toList ++ announced rest

section

variable {token name : Token} {tokens rest : List Token} {names : List String}

/-- A token that starts no declaration with the next one announces nothing. -/
theorem announced_cons (unpaired : ∀ next ∈ tokens.head?, Unpaired token next) :
    announced (token :: tokens) = announced tokens := by
  have none : declaredAt? (token :: tokens) = none := by
    unfold declaredAt?
    split
    case h_1 latent table name rest same =>
      obtain ⟨rfl, rfl⟩ := List.cons.inj same
      rw [if_neg]
      simpa [Unpaired] using unpaired table rfl
    case h_2 => rfl
  rw [announced, none]
  rfl

/-- Tokens among which no declaration starts announce nothing. -/
theorem announced_eq_nil (quiet : tokens.IsChain Unpaired) : announced tokens = [] := by
  induction tokens with
  | nil => rfl
  | cons first rest ih =>
    obtain ⟨next, quiet⟩ := List.isChain_cons.mp quiet
    rw [announced_cons next, ih quiet]

/-- Before a token that is no keyword, a token announces nothing. -/
theorem announced_cons_of_kind {next : Token} {kind : TokenKind} (known : next.kind = kind)
    (other : kind ≠ .keyword) : announced (token :: next :: rest) = announced (next :: rest) :=
  announced_cons fun _ same => Option.some.inj same ▸ unpaired_of_kind (known ▸ other)

/-- A symbol announces nothing. -/
theorem announced_symbol (symbol : token.kind = .symbol) :
    announced (token :: rest) = announced rest :=
  announced_cons fun _ _ => unpaired_of_symbol symbol

/-- A declaration announces its name. -/
theorem IsDeclaration.announced_append (declaration : IsDeclaration name tokens) :
    announced (tokens ++ rest) = name.text :: announced rest := by
  obtain ⟨isLatent, isTable, kind, symbol⟩ := declaration
  rw [List.cons_append, announced, List.cons_append, List.cons_append, declaredAt?,
    if_pos (by rw [isLatent, isTable]; rfl), announced_cons_of_kind kind nofun, List.cons_append,
    announced_cons_of_kind symbol nofun, List.nil_append, announced_symbol symbol]
  rfl

/-- Declarations announce their names. -/
theorem Declaring.announced_append (declaring : Declaring tokens names) :
    announced (tokens ++ rest) = names ++ announced rest := by
  induction declaring with
  | nil => rfl
  | cons first _ ih => rw [List.append_assoc, first.announced_append, ih, List.cons_append]

/-- The header of a program announces its tables. -/
theorem Opening.announced_append (opening : Opening name tokens names) :
    announced (tokens ++ rest) = names ++ announced rest := by
  obtain ⟨declaring, _, kind, symbol, declaringToo⟩ := opening
  rw [List.append_assoc, declaring.announced_append, List.cons_append, List.cons_append,
    announced_cons_of_kind kind nofun, List.cons_append, announced_cons_of_kind symbol nofun,
    announced_symbol symbol, declaringToo.announced_append, List.append_assoc]

/-- A keyword that is another word starts no block. -/
theorem isBlock_of_isKeyword {word : String} (known : token.isKeyword word = true)
    (other : word ≠ "block") : token.isKeyword "block" = false := by
  rw [Bool.eq_false_iff]
  intro block
  exact other ((Token.text_of_is known).symm.trans (Token.text_of_is block))

/-- A token that is no keyword starts no block. -/
theorem isBlock_of_kind {kind : TokenKind} (known : token.kind = kind) (other : kind ≠ .keyword) :
    token.isKeyword "block" = false := by
  rw [Bool.eq_false_iff]
  exact fun block => other (known.symm.trans (Token.kind_of_is block))

/-- No block starts in declarations. -/
theorem Declaring.no_block (declaring : Declaring tokens names) :
    ∀ token ∈ tokens, token.isKeyword "block" = false := by
  induction declaring with
  | nil => simp
  | cons first _ ih =>
    obtain ⟨isLatent, isTable, kind, symbol⟩ := first
    have named := isBlock_of_kind kind nofun
    have ends := isBlock_of_kind symbol nofun
    have latent := isBlock_of_isKeyword isLatent (by decide)
    have table := isBlock_of_isKeyword isTable (by decide)
    exact List.forall_mem_append.mpr ⟨by simp [*], ih⟩

/-- No block starts in the header of a program. -/
theorem Opening.no_block (opening : Opening name tokens names) :
    ∀ token ∈ tokens, token.isKeyword "block" = false := by
  obtain ⟨declaring, isProgram, kind, symbol, declaringToo⟩ := opening
  have program := isBlock_of_isKeyword isProgram (by decide)
  have named := isBlock_of_kind kind nofun
  have opens := isBlock_of_kind symbol nofun
  refine List.forall_mem_append.mpr ⟨declaring.no_block, ?_⟩
  simpa [program, named, opens] using declaringToo.no_block

end

/-! ## Blocks -/

/-- A parameter is new. -/
theorem parameter_unrepeated {test : Token → Prop} {env : Environment} {block : String}
    {before : List String} : (parameter env block before).Ensures test (· ∉ before) := by
  refine .andThen name_ensures fun name _ => ?_
  split
  · exact .refuse
  case isFalse fresh => exact .pure (by simpa using fresh)

/-- The parameters of a block are distinct. -/
theorem parameters_nodup {test : Token → Prop} {env : Environment} {block : String} :
    (parameters env block).Ensures test List.Nodup := by
  refine .andThen symbol_ensures fun _ _ => .peek fun next => ?_
  split
  · exact .skip symbol_ensures fun _ => .pure List.nodup_nil
  · refine .bind (.consumer parameter_unrepeated) fun first _ => ?_
    have keeps (before : List String) (nodup : before.Nodup) :
        (parameter env block before).Ensures test fun next => (before ++ [next]).Nodup :=
      parameter_unrepeated.weaken fun next fresh => by
        refine List.nodup_append.mpr ⟨nodup, by simp, fun parameter member => ?_⟩
        simpa using ne_of_mem_of_not_mem member fresh
    refine .bind (furtherParameters_keep keeps (by simp)) fun all nodup => ?_
    exact .skip symbol_ensures fun _ => .pure nodup

/-- The parameters of every block of a program are distinct. -/
theorem program_parameters_nodup {env : Environment} :
    (program env).Ensures (fun _ => True)
      fun program => ∀ block ∈ program.blocks, block.parameters.Nodup := by
  have each (env : Environment) :
      (block env).Ensures (fun _ => True) fun block => block.parameters.Nodup := by
    refine .andThen .nothing fun _ _ => .bind .nothing fun name _ => ?_
    refine .bind (.consumer parameters_nodup) fun parameters nodup => ?_
    exact .bind .nothing fun active _ => .bind .nothing fun body _ => .pure nodup
  have eachOf (env : Environment) (name : String) :
      (blockOf env name).Ensures (fun _ => True) fun block => block.parameters.Nodup := by
    intro source consumed passed run
    unfold blockOf at run
    split at run
    · have late : (lateDeclaration env).Ensures (fun _ => True)
          fun block : Block => block.parameters.Nodup := .andThen .nothing fun _ _ => .refuse
      exact late passed run
    · exact (each env).mapFailure passed run
  refine .bind .nothing fun env _ => .bind .nothing fun _ _ => .bind .nothing fun name _ => ?_
  refine .bind .nothing fun _ _ => .bind .nothing fun env _ => ?_
  refine .bind (itemsUntil_ensures (eachOf env name.text)) fun blocks nodup => ?_
  refine .bind .nothing fun _ _ => .bind .nothing fun late _ => ?_
  split
  · exact .consumer (.andThen .nothing fun _ _ => .refuse)
  · exact .bind .nothing fun _ _ => .pure nodup

end Grammar

/-! ## Scopes -/

/-- The name of a node that is a scope. -/
def Node.scopeName? : Node → Option String
  | .sugar (.scope name _ _) => some name
  | _ => none

/-- The name of the scope at a place in a program. -/
def Program.scopeAt? (program : Program) (place : List Nat) : Option String :=
  (program.at? place).bind Node.scopeName?

/-- The scopes in a tree have new names: no name is known around the tree, and none is that of an
enclosing scope. -/
structure Node.FreshScopes (known : List String) (node : Node) : Prop where
  /-- The name of a scope is not known. -/
  unknown {place : List Nat} {name : String} :
    (node.at? place).bind scopeName? = some name → name ∉ known
  /-- A scope inside another one has another name. -/
  nested {above below : List Nat} {name outer : String} : below ≠ [] →
    (node.at? above).bind scopeName? = some outer →
    (node.at? (above ++ below)).bind scopeName? = some name → outer ≠ name

namespace Node.FreshScopes

variable {known inner : List String} {node : Node}

/-- What scopes around it know must be known in the children of a node, and the name of the node
itself, if it is a scope, must be new. -/
theorem of_children (own : ∀ name ∈ node.scopeName?, name ∉ known ∧ name ∈ inner)
    (wider : known ⊆ inner) (each : ∀ child ∈ node.children, FreshScopes inner child) :
    FreshScopes known node where
  unknown {place name} found := by
    cases place with
    | nil => exact (own name found).1
    | cons i place =>
      rw [at?, Option.bind_assoc, Option.bind_eq_some_iff] at found
      obtain ⟨child, here, found⟩ := found
      exact fun member => (each child (List.mem_of_getElem? here)).unknown found (wider member)
  nested {above below name outer} proper foundOuter found := by
    cases above with
    | nil =>
      obtain ⟨i, place, rfl⟩ := List.exists_cons_of_ne_nil proper
      rw [List.nil_append, at?, Option.bind_assoc, Option.bind_eq_some_iff] at found
      obtain ⟨child, here, found⟩ := found
      have unknown := (each child (List.mem_of_getElem? here)).unknown found
      exact ne_of_mem_of_not_mem (own outer foundOuter).2 unknown
    | cons i above =>
      rw [List.cons_append, at?, Option.bind_assoc, Option.bind_eq_some_iff] at found
      rw [at?, Option.bind_assoc, Option.bind_eq_some_iff] at foundOuter
      obtain ⟨child, here, found⟩ := found
      obtain ⟨other, hereToo, foundOuter⟩ := foundOuter
      obtain rfl := Option.some.inj (here.symm.trans hereToo)
      exact (each child (List.mem_of_getElem? here)).nested proper foundOuter found

/-- A node that is no scope has the scopes of its children. -/
theorem plain (own : node.scopeName? = none)
    (each : ∀ child ∈ node.children, FreshScopes known child) : FreshScopes known node :=
  of_children (by simp [own]) (List.Subset.refl _) each

end Node.FreshScopes

open Node in
/-- Scopes in trees that source text stands for have new names. -/
theorem Grammar.Built.freshScopes {isName : String → Prop} {known : List String} {node : Node}
    (built : Built isName known node) : FreshScopes known node := by
  induction built with
  | literal _ | var _ | bindSnapshot _ _ => exact .plain rfl (by simp [children, Sugar.children])
  | assign _ _ _ ih | assignLocal _ _ ih => exact .plain rfl (List.forall_mem_singleton.mpr ih)
  | bind _ _ _ ih | bindContent _ _ _ ih | batch _ _ _ ih =>
    exact .plain rfl (List.forall_mem_singleton.mpr ih)
  | guard _ ih => exact .plain rfl (List.forall_mem_singleton.mpr ih)
  | branch _ _ _ ihTest ihYes ihNo =>
    refine .plain rfl (List.forall_mem_append.mpr ⟨?_, ihNo⟩)
    exact List.forall_mem_cons.mpr ⟨ihTest, ihYes⟩
  | apply _ ih => exact .plain rfl ih
  | call _ _ ihTarget ihArguments =>
    exact .plain rfl (List.forall_mem_cons.mpr ⟨ihTarget, ihArguments⟩)
  | finish _ ih => exact .plain rfl (by simpa [children] using ih)
  | store _ _ _ ih => exact .plain rfl ih
  | pipeline _ _ ihValue ihStage =>
    exact .plain rfl (List.forall_mem_cons.mpr ⟨ihValue, List.forall_mem_singleton.mpr ihStage⟩)
  | @feed known _ call _ _ _ _ ihValue ihOperands =>
    have stage : FreshScopes known (.store call) := .plain rfl ihOperands
    exact .plain rfl (List.forall_mem_cons.mpr ⟨ihValue, List.forall_mem_singleton.mpr stage⟩)
  | whileLoop _ _ ihTest ihBody | forLoop _ _ _ ihTest ihBody | bindInside _ _ _ _ ihTest ihBody =>
    exact .plain rfl (List.forall_mem_cons.mpr ⟨ihTest, ihBody⟩)
  | scope _ fresh _ _ ih =>
    refine .of_children (fun name own => ?_) (List.subset_cons_self ..) ih
    cases own
    exact ⟨fresh, List.mem_cons_self ..⟩
  | within _ _ ih => exact .plain rfl ih

/-- Scopes in a program have names that are not declared, and none has the name of a scope around
it. -/
theorem Grammar.BuiltProgram.freshScopes {isName : String → Prop} {program : Program}
    (built : BuiltProgram isName program) {place : List Nat} {name : String}
    (found : program.scopeAt? place = some name) :
    name ∉ program.tables ∧ ∀ above below outer, place = above ++ below → below ≠ [] →
      program.scopeAt? above = some outer → outer ≠ name := by
  have fresh (node : Node) (member : node ∈ program.statements) :
      node.FreshScopes program.tables := by
    obtain ⟨block, inside, member⟩ := List.mem_flatMap.mp member
    exact ((built.blocks block inside).body node member).freshScopes
  cases place with
  | nil => cases found
  | cons i place =>
    rw [Program.scopeAt?, Program.at?, Node.atIn?, Option.bind_assoc,
      Option.bind_eq_some_iff] at found
    obtain ⟨node, here, found⟩ := found
    have scopes := fresh node (List.mem_of_getElem? here)
    refine ⟨scopes.unknown found, fun above below outer split proper foundOuter => ?_⟩
    cases above with
    | nil => cases foundOuter
    | cons j above =>
      obtain ⟨rfl, rfl⟩ := List.cons.inj split
      rw [Program.scopeAt?, Program.at?, Node.atIn?, Option.bind_assoc,
        Option.bind_eq_some_iff] at foundOuter
      obtain ⟨other, hereToo, foundOuter⟩ := foundOuter
      obtain rfl := Option.some.inj (here.symm.trans hereToo)
      exact scopes.nested proper foundOuter found

open Grammar

/-- A program that can be read declares its tables first and each of them once: its tables are the
names that follow the two keywords of a declaration wherever these stand in a row in the source, no
block starts before any of them, and no name occurs twice. The parameters of a block are distinct,
its active table is declared, and a scope in a block has neither the name of a declared table nor of
a scope around it. -/
theorem parseProgram_declarations {settings : Settings} {source : String} {program : Program}
    (parsed : parseProgram settings source = .ok program) :
    let tokens := Source.tokens settings source ++ [Source.endToken source]
    announced tokens = program.tables ∧ program.tables.Nodup ∧
      (∀ before latent table after, tokens = before ++ latent :: table :: after →
        latent.isKeyword "latent" = true → table.isKeyword "table" = true →
        ∀ token ∈ before, token.isKeyword "block" = false) ∧
      (∀ block ∈ program.blocks, block.parameters.Nodup ∧
        ∀ table ∈ block.activeTable, table ∈ program.tables) ∧
      ∀ place name, program.scopeAt? place = some name → name ∉ program.tables ∧
        ∀ above below outer, place = above ++ below → below ≠ [] →
          program.scopeAt? above = some outer → outer ≠ name := by
  intro tokens
  have built : BuiltProgram (fun _ => True) program :=
    parseProgram_built (fun _ _ _ => trivial) parsed
  obtain ⟨rest, run⟩ := exists_of_read_eq_ok parsed
  have outcome := @outcome_program (fun _ => True) (start settings {} source) trivial
    (Source.tokens settings source) fun _ _ => trivial
  rw [run] at outcome
  obtain ⟨_, _, _, name, opening, closing, names, split, header, quiet, tables, unique⟩ := outcome
  have tables : program.tables = names := tables
  have ends : Quiet afterAny [Source.endToken source] :=
    .singleton fun _ _ => unpaired_of_kind nofun
  have quiet : (closing ++ [Source.endToken source]).IsChain Unpaired :=
    (quiet.append ends (Source.endToken source) trivial).tail
  have whole : tokens = opening ++ (closing ++ [Source.endToken source]) := by
    rw [← List.append_assoc, ← split]
  refine ⟨?_, unique List.nodup_nil, ?_, fun block member => ⟨?_, ?_⟩, ?_⟩
  · rw [whole, header.announced_append, announced_eq_nil quiet, List.append_nil, tables]
  · intro before latent table after splitToo isLatent isTable
    rw [whole] at splitToo
    rcases List.append_eq_append_iff.mp splitToo with ⟨front, _, inside⟩ | ⟨back, rfl, _⟩
    · rw [inside] at quiet
      have unpaired := (List.isChain_cons_cons.mp quiet.right_of_append).1
      exact (unpaired ⟨isLatent, isTable⟩).elim
    · exact fun token member => header.no_block token (List.mem_append_left _ member)
  · exact of_read program_parameters_nodup (fun _ _ => trivial) parsed block member
  · exact (built.blocks block member).activeTable
  · exact fun place name => built.freshScopes

/-- A program declares a table on each side of its name, and its block has a scope in a scope. -/
theorem parseProgram_declarations_nested_scopes :
    let source := "latent table a; program p \x7b latent table b; block m(x, y) using b " ++
      "\x7b latent scope s \x7b latent scope t \x7b \x7d \x7d \x7d \x7d"
    ∃ program, parseProgram {} source = .ok program ∧ program.scopeAt? [0] = some "s" ∧
      program.scopeAt? [0, 0] = some "t" ∧
      announced (Source.tokens {} source ++ [Source.endToken source]) = ["a", "b"] ∧
      "s" ∉ program.tables ∧ "s" ≠ "t" := by
  intro source
  have seen : (parseProgram {} source).toOption.any (fun program =>
      program.tables == ["a", "b"] && program.scopeAt? [0] == some "s" &&
        program.scopeAt? [0, 0] == some "t") = true := by
    decide +kernel
  obtain ⟨program, parsed, seen⟩ := (Option.any_eq_true ..).mp seen
  have parsed := ok_of_toOption_eq_some parsed
  simp only [Bool.and_eq_true, beq_iff_eq] at seen
  obtain ⟨⟨tables, outer⟩, inner⟩ := seen
  obtain ⟨names, _, _, _, scopes⟩ := parseProgram_declarations parsed
  have fresh := (scopes [0] "s" outer).1
  have other := (scopes [0, 0] "t" inner).2 [0] [0] "s" rfl (by simp) outer
  exact ⟨program, parsed, outer, inner, names.trans tables, fresh, other⟩

end ContentSpace
