import ContentSpace.Proofs.Space.Frame
import ContentSpace.Proofs.Space.Shadowing
import Mathlib.Order.WellFounded

/-!
# Scopes are nested

A scope is opened in a table that is there, under a name that no table has, and no table is
discarded while a scope is open in it. So going outward from a table always comes to an outermost
one, and the search for a key, which nothing else bounds, ends.
-/

namespace ContentSpace.Space

variable {space after : Space}

/-- A table is a scope directly inside another one. -/
def Encloses (space : Space) (outer inner : String) : Prop :=
  ∃ table, space.tables.get? inner = some table ∧ table.parent = some outer

/-- Every scope is inside a table, and going outward ends. -/
structure WellNested (space : Space) : Prop where
  /-- There is a table around every scope. -/
  exists_outer : ∀ {outer inner : String}, space.Encloses outer inner →
    ∃ table, space.tables.get? outer = some table
  /-- There is no endless way outward. -/
  wellFounded : WellFounded space.Encloses

/-- The tables from a table outward, up to the outermost one. -/
inductive Chain (space : Space) : String → List Table → Prop
  /-- A table without parent is the outermost one. -/
  | outermost {name : String} {table : Table} (found : space.tables.get? name = some table)
      (root : table.parent = none) : Chain space name [table]
  /-- A scope is followed by the tables around it. -/
  | scope {name parent : String} {table : Table} {around : List Table}
      (found : space.tables.get? name = some table) (enclosed : table.parent = some parent)
      (outward : Chain space parent around) : Chain space name (table :: around)

/-- The search for a key that began in the table `start` and has come to a table ends with a
result. Each step looks at one table and follows its parent; nothing keeps the search from passing
a table twice. -/
inductive Searches (space : Space) (start key : String) : String → Except Fault Entry → Prop
  /-- The search ends where there is no table. -/
  | unknown {name : String} (absent : space.tables.get? name = none) :
      Searches space start key name (.error (.unknownTable name))
  /-- The search ends in a table that binds the key. -/
  | bound {name : String} {table : Table} {entry : Entry}
      (found : space.tables.get? name = some table) (binds : table.get? key = some entry) :
      Searches space start key name (.ok entry)
  /-- The search ends in an outermost table. -/
  | unbound {name : String} {table : Table} (found : space.tables.get? name = some table)
      (lacks : table.get? key = none) (root : table.parent = none) :
      Searches space start key name (.error (.notFound start key))
  /-- The search goes on around a scope that does not bind the key. -/
  | outward {name parent : String} {table : Table} {result : Except Fault Entry}
      (found : space.tables.get? name = some table) (lacks : table.get? key = none)
      (enclosed : table.parent = some parent) (rest : Searches space start key parent result) :
      Searches space start key name result

/-- What a search in a chain of tables ends with: the entry of the first table that binds the key,
or the fault that names the table where the search began. -/
def nearest (start key : String) (chain : List Table) : Except Fault Entry :=
  match chain.findSome? (·.get? key) with
  | some entry => .ok entry
  | none => .error (.notFound start key)

/-! ## Histories keep scopes nested -/

/-- A scope after an operation was a scope of the same table before, or it is new and the table
around it is not. -/
theorem TableEffect.encloses_cases [Hashing] {operation : Operation}
    (effect : TableEffect space operation after.tables) {outer inner : String}
    (enclosed : after.Encloses outer inner) :
    space.Encloses outer inner ∨
      (space.tables.get? inner = none ∧ ∃ table, space.tables.get? outer = some table) := by
  obtain ⟨table, found, parent⟩ := enclosed
  rcases effect.parent_cases found with
    ⟨before, old, same⟩ | ⟨-, -, root⟩ | ⟨around, name, absent, -, inside, bound⟩
  · exact .inl ⟨before, old, same.trans parent⟩
  · rw [root] at parent
    cases parent
  · rw [inside, Option.some.injEq] at parent
    rw [parent] at bound
    exact .inr ⟨absent, around, bound⟩

/-- A table in which a scope is open stays. -/
theorem TableEffect.exists_outer [Hashing] {operation : Operation} {tables : NameMap Table}
    (effect : TableEffect space operation tables) {outer inner : String} {scope table : Table}
    (found : tables.get? inner = some scope) (enclosed : scope.parent = some outer)
    (around : space.tables.get? outer = some table) :
    ∃ table, tables.get? outer = some table := by
  cases effect with
  | kept => exact ⟨table, around⟩
  | ran | created | opened | promoted =>
    simp only [NameMap.get?_insert]
    split
    · exact ⟨_, rfl⟩
    · exact ⟨table, around⟩
  | closed _ _ innermost =>
    obtain ⟨-, before⟩ := NameMap.get?_erase_eq_some_iff.mp found
    have apart := innermost scope (NameMap.mem_values_iff.mpr ⟨inner, before⟩)
    rw [enclosed, ne_eq, Option.some.injEq] at apart
    exact ⟨table, NameMap.get?_erase_eq_some_iff.mpr ⟨apart, around⟩⟩

/-- Every operation keeps scopes nested. A new scope is not around any table, since its name was
free, so the ways outward from the other tables are the ones there were. -/
theorem WellNested.effect [Hashing] (nested : space.WellNested) {operation : Operation}
    (effect : TableEffect space operation after.tables) : after.WellNested where
  exists_outer := by
    intro outer inner enclosed
    have around : ∃ table, space.tables.get? outer = some table := by
      rcases effect.encloses_cases enclosed with before | ⟨-, around⟩
      · exact nested.exists_outer before
      · exact around
    obtain ⟨scope, found, parent⟩ := enclosed
    obtain ⟨table, bound⟩ := around
    exact effect.exists_outer found parent bound
  wellFounded := by
    have old : ∀ name table, space.tables.get? name = some table →
        Acc after.Encloses name := by
      intro name
      induction name using nested.wellFounded.induction with
      | _ name ih =>
        intro table found
        constructor
        intro outer enclosed
        rcases effect.encloses_cases enclosed with before | ⟨absent, -⟩
        · obtain ⟨around, bound⟩ := nested.exists_outer before
          exact ih outer before around bound
        · rw [found] at absent
          cases absent
    constructor
    intro name
    constructor
    intro outer enclosed
    rcases effect.encloses_cases enclosed with before | ⟨-, table, around⟩
    · obtain ⟨table, around⟩ := nested.exists_outer before
      exact old outer table around
    · exact old outer table around

/-- Scopes are nested in every space that a history reaches. -/
theorem wellNested_runAll [Hashing] (configuration : SpaceConfiguration)
    (history : List Operation) : ((ofConfiguration configuration).runAll history).WellNested := by
  refine runAll_keeps (fun space operation nested => nested.effect (space.run_tableEffect operation))
    ?_ history
  have none (outer inner : String) : ¬ (ofConfiguration configuration).Encloses outer inner := by
    rintro ⟨table, found, -⟩
    simp [ofConfiguration] at found
  exact ⟨fun enclosed => (none _ _ enclosed).elim,
    ⟨fun name => ⟨name, fun outer enclosed => (none _ _ enclosed).elim⟩⟩⟩

/-- No table is around itself. -/
theorem WellNested.acyclic (nested : space.WellNested) (name : String) :
    ¬ Relation.TransGen space.Encloses name name :=
  nested.wellFounded.transGen.irrefl.irrefl name

/-! ## The way outward -/

/-- Going outward from a table comes to an outermost one. -/
theorem WellNested.exists_chain (nested : space.WellNested) {name : String} {table : Table}
    (found : space.tables.get? name = some table) : ∃ chain, space.Chain name chain := by
  induction name using nested.wellFounded.induction generalizing table with
  | _ name ih =>
    cases parent : table.parent with
    | none => exact ⟨_, .outermost found parent⟩
    | some outer =>
      have enclosed : space.Encloses outer name := ⟨table, found, parent⟩
      obtain ⟨around, bound⟩ := nested.exists_outer enclosed
      obtain ⟨chain, outward⟩ := ih outer enclosed bound
      exact ⟨_, .scope found parent outward⟩

/-- The ancestry of a table is the way outward from it. The tables that have been passed may be
left out of the map, because the way does not come back to them. -/
theorem WellNested.ancestry_of_chain (nested : space.WellNested) {name : String}
    {chain : List Table} (outward : space.Chain name chain) {tables : NameMap Table}
    (agree : ∀ outer, Relation.ReflTransGen space.Encloses outer name →
      tables.get? outer = space.tables.get? outer) : ancestry tables name = chain := by
  induction outward generalizing tables with
  | outermost found root =>
    have here := (agree _ .refl).trans found
    rw [ancestry_eq here, root]
  | @scope name parent table around found enclosed _ ih =>
    have here := (agree _ .refl).trans found
    have step : space.Encloses parent name := ⟨table, found, enclosed⟩
    rw [ancestry_eq here, enclosed]
    congr 1
    apply ih
    intro outer outward
    have apart : outer ≠ name := by
      rintro rfl
      exact nested.acyclic outer (.tail' outward step)
    rw [NameMap.get?_erase, if_neg apart]
    exact agree outer (outward.tail step)

/-- Looking a key up finds what the nearest table on the way outward binds it to. -/
theorem Chain.lookup_eq (nested : space.WellNested) {name : String} {chain : List Table}
    (outward : space.Chain name chain) (key : String) :
    space.lookup name key = nearest name key chain := by
  have known : ∃ table, space.table name = .ok table := by
    cases outward with
    | outermost found | scope found => exact ⟨_, by rw [Space.table, found]⟩
  obtain ⟨table, known⟩ := known
  rw [lookup, known, nested.ancestry_of_chain outward fun _ _ => rfl]
  rfl

/-! ## The search -/

/-- The search in a chain ends with what the nearest table binds the key to. -/
theorem Chain.searches {name : String} {chain : List Table} (outward : space.Chain name chain)
    (start key : String) : space.Searches start key name (nearest start key chain) := by
  induction outward with
  | @outermost name table found root =>
    cases bound : table.get? key with
    | some entry =>
      rw [nearest, List.findSome?_cons, bound]
      exact .bound found bound
    | none =>
      rw [nearest, List.findSome?_cons, bound, List.findSome?_nil]
      exact .unbound found bound root
  | @scope name parent table around found enclosed _ ih =>
    cases bound : table.get? key with
    | some entry =>
      rw [nearest, List.findSome?_cons, bound]
      exact .bound found bound
    | none =>
      rw [nearest, List.findSome?_cons, bound, ← nearest]
      exact .outward found bound enclosed ih

/-- A search ends with one result only. -/
theorem Searches.unique {start key name : String} {result other : Except Fault Entry}
    (search : space.Searches start key name result)
    (again : space.Searches start key name other) : result = other := by
  induction search with
  | unknown absent => cases again <;> simp_all
  | bound found binds => cases again <;> simp_all
  | unbound found lacks root => cases again <;> simp_all
  | outward found lacks enclosed _ ih =>
    cases again with
    | outward found' _ enclosed' rest =>
      rw [found, Option.some.injEq] at found'
      subst found'
      rw [enclosed, Option.some.injEq] at enclosed'
      subst enclosed'
      exact ih rest
    | _ => simp_all

/-- The search ends with what looking the key up gives. -/
theorem Chain.searches_iff (nested : space.WellNested) {name : String} {chain : List Table}
    (outward : space.Chain name chain) (key : String) (result : Except Fault Entry) :
    space.Searches name key name result ↔ space.lookup name key = result := by
  rw [outward.lookup_eq nested]
  constructor
  · exact (outward.searches name key).unique
  · rintro rfl
    exact outward.searches name key

/-- In every space that a history reaches, there is a table around every scope and no table is
around itself. So for every table the way outward is finite, the search for any key ends, and looking
the key up gives the entry of the nearest table that binds it, or fails with the name of the table
where the search began. -/
theorem lookup_of_reached [Hashing] (configuration : SpaceConfiguration)
    (history : List Operation) :
    let space := (ofConfiguration configuration).runAll history
    (∀ outer inner, space.Encloses outer inner → space.hasTable outer = true) ∧
    (∀ name, ¬ Relation.TransGen space.Encloses name name) ∧
    ∀ name key, space.hasTable name = true →
      (∀ result, space.Searches name key name result ↔ space.lookup name key = result) ∧
      (∃ chain, space.Chain name chain ∧ space.lookup name key = nearest name key chain) ∧
      ∀ fault, space.lookup name key = .error fault → fault = .notFound name key := by
  intro space
  have nested : space.WellNested := wellNested_runAll configuration history
  refine ⟨?_, nested.acyclic, ?_⟩
  · intro outer inner enclosed
    exact Option.isSome_iff_exists.mpr (nested.exists_outer enclosed)
  · intro name key known
    obtain ⟨table, found⟩ := Option.isSome_iff_exists.mp known
    obtain ⟨chain, outward⟩ := nested.exists_chain found
    have result := outward.lookup_eq nested key
    refine ⟨outward.searches_iff nested key, ⟨chain, outward, result⟩, ?_⟩
    intro fault failed
    rw [result, nearest] at failed
    split at failed
    · cases failed
    · exact (Except.error.inj failed).symm

/-- A name is used for a scope, closed, used for a table, and refused as the table around an older
one. From a scope opened in it then, the search for a key goes on in that table and ends there. -/
theorem lookup_after_reuse_of_name :
    let space := (ofConfiguration {}).runAll [.createTable "t", .openScope "t" "s", .closeScope "s",
      .createTable "s", .openScope "s" "t", .openScope "s" "u"]
    space.Encloses "s" "u" ∧ space.hasTable "s" = true ∧ space.hasTable "u" = true ∧
      space.lookup "u" "x" = .error (.notFound "u" "x") := by
  intro space
  obtain ⟨outer, around⟩ : ∃ outer, space.tables.get? "s" = some outer :=
    Option.isSome_iff_exists.mp (by decide +kernel)
  obtain ⟨scope, found⟩ : ∃ scope, space.tables.get? "u" = some scope :=
    Option.isSome_iff_exists.mp (by decide +kernel)
  have root : (space.tables.get? "s").bind Table.parent = none := by decide +kernel
  have inside : (space.tables.get? "u").bind Table.parent = some "s" := by decide +kernel
  have lacksOuter : ((space.tables.get? "s").bind (·.get? "x")).isNone = true := by decide +kernel
  have lacks : ((space.tables.get? "u").bind (·.get? "x")).isNone = true := by decide +kernel
  rw [around, Option.bind_some] at root lacksOuter
  rw [found, Option.bind_some] at inside lacks
  rw [Option.isNone_iff_eq_none] at lacksOuter lacks
  obtain ⟨exists_outer, -, search⟩ := lookup_of_reached {} [.createTable "t", .openScope "t" "s",
    .closeScope "s", .createTable "s", .openScope "s" "t", .openScope "s" "u"]
  have known : space.hasTable "u" = true := by decide +kernel
  have enclosed : space.Encloses "s" "u" := ⟨scope, found, inside⟩
  refine ⟨enclosed, exists_outer "s" "u" enclosed, known, ?_⟩
  refine ((search "u" "x" known).1 _).mp ?_
  exact .outward found lacks inside (.unbound around lacksOuter root)

end ContentSpace.Space
