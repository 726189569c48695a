import ContentSpace.Proofs.Space.Nesting

/-!
# Scopes are brackets

Operations that are about a scope, or about scopes opened inside it, leave all tables around alone,
except that what the scope promotes is stored in the table around it. So once all these scopes are
closed, the tables are the ones there were before the first one was opened, up to what was promoted.
Scopes can always be closed in the reverse of the order in which they were opened. Only a table that
was created anew, under the name of a scope closed before, is no scope and stays.
-/

namespace ContentSpace

/-- A table that stored copies of entries, each new to it and under a handle that was free for it.
Storing one releases the reservation of its handle. -/
inductive Table.Gains (copied : List Entry) (table : Table) : Table → Prop
  /-- Nothing is stored. -/
  | refl : Gains copied table table
  /-- A further copy is stored. -/
  | store {later : Table} {entry : Entry} (handle : Handle) (gains : Gains copied table later)
      (member : entry ∈ copied) (new : later.index.get? entry.fingerprint.hex = none)
      (free : later.isTaken handle entry.fingerprint = false) :
      Gains copied table (later.store { entry with handle })

namespace Table.Gains

variable {table later after : Table} {copied further : List Entry}

/-- More entries can be copied. -/
theorem mono (gains : table.Gains copied later) (subset : copied ⊆ further) :
    table.Gains further later := by
  induction gains with
  | refl => exact .refl
  | store handle _ member new free ih => exact ih.store handle (subset member) new free

/-- Without entries to copy nothing is stored. -/
theorem eq_of_nil (gains : table.Gains [] later) : later = table := by
  cases gains with
  | refl => rfl
  | store _ _ member => cases member

/-- Storing copies does not move a table into another one. -/
theorem parent_eq (gains : table.Gains copied later) : later.parent = table.parent := by
  induction gains with
  | refl => rfl
  | store _ _ _ _ _ ih => exact ih

/-- Storing the content of an entry with its tag copies the entry, unless the content is there. -/
theorem collapse [Hashing] (gains : table.Gains copied later) {entry : Entry}
    (member : entry ∈ copied) (sound : entry.fingerprint = Fingerprint.of entry.value)
    {length : Nat} {collapsed : Collapsed}
    (stored : later.collapse entry.tag entry.value length = .ok (collapsed, after)) :
    table.Gains copied after := by
  rcases collapse_cases stored with ⟨rfl, -⟩ | ⟨rfl, new, free⟩
  · exact gains
  · rw [← sound] at new free
    have copy := gains.store collapsed.handle member new free
    rwa [sound] at copy

end Table.Gains

namespace Space

variable {space : Space}

/-- The entry of a scope that an operation copies outward, if it does. -/
def copies [Hashing] (space : Space) (scope : String) : Operation → List Entry
  | .promote child key =>
    match space.promotable child key, (space.promote child key).1 with
    | .ok (_, entry), .ok _ => if child = scope then [entry] else []
    | _, _ => []
  | _ => []

/-- The scopes that a history opens, in the order of opening. -/
def openedIn [Hashing] (space : Space) : List Operation → List String
  | [] => []
  | operation :: rest => space.opens operation ++ (space.run operation).2.openedIn rest

/-- The entries of a scope that a history copies outward. -/
def copiedIn [Hashing] (space : Space) (scope : String) : List Operation → List Entry
  | [] => []
  | operation :: rest =>
    space.copies scope operation ++ (space.run operation).2.copiedIn scope rest

/-- The operations of a history are about tables of certain names only, or about scopes that the
history has opened in them or in one another. -/
def Confined [Hashing] (space : Space) (inside : List String) : List Operation → Prop
  | [] => True
  | operation :: rest =>
    (∀ name ∈ operation.subject?.toList, name ∈ inside) ∧
      (space.run operation).2.Confined (inside ++ space.opens operation) rest

instance decidableConfined [Hashing] : ∀ (space : Space) (inside : List String)
    (operations : List Operation), Decidable (space.Confined inside operations)
  | _, _, [] => .isTrue trivial
  | space, inside, operation :: rest =>
    have := decidableConfined (space.run operation).2 (inside ++ space.opens operation) rest
    inferInstanceAs (Decidable (_ ∧ _))

/-- A scope of a name may be inside a table: the table has one of the names and was opened before,
or the scope is the first one and the table is the one around it. -/
structure Within (parent scope : String) (inside : List String) (name outer : String) : Prop where
  /-- The table is inside, or it is the one around the first scope. -/
  outer_cases : outer ∈ inside ∨ (name = scope ∧ outer = parent)
  /-- The table was not opened when or after the scope was opened for the last time. -/
  order : ∃ before after, inside = before ++ name :: after ∧ outer ∉ name :: after

/-- How the tables stand to those before a scope was opened, as long as operations are confined to
the names `inside` of the scope and the scopes opened in it, in the order of opening. -/
structure Bracketed (base : NameMap Table) (parent scope : String) (copied : List Entry)
    (inside : List String) (tables : NameMap Table) : Prop where
  /-- Other tables are as they were. -/
  outside : ∀ name, name ∉ inside → name ≠ parent → tables.get? name = base.get? name
  /-- The names were free. -/
  fresh : ∀ name ∈ inside, base.get? name = none
  /-- The table around the scope has gained what was copied. -/
  around : ∃ before now, base.get? parent = some before ∧ tables.get? parent = some now ∧
    before.Gains copied now
  /-- Scopes inside are in tables opened before. -/
  nested : ∀ name ∈ inside, ∀ table outer, tables.get? name = some table →
    table.parent = some outer → Within parent scope inside name outer

namespace Bracketed

variable {base tables : NameMap Table} {parent scope : String} {copied : List Entry}
  {inside : List String}

/-- The table around the first scope is not inside. -/
theorem parent_not_mem (bracketed : Bracketed base parent scope copied inside tables) :
    parent ∉ inside := by
  intro member
  obtain ⟨before, -, there, -, -⟩ := bracketed.around
  rw [bracketed.fresh parent member] at there
  cases there

/-- More entries can be copied. -/
theorem mono (bracketed : Bracketed base parent scope copied inside tables) {further : List Entry}
    (subset : copied ⊆ further) : Bracketed base parent scope further inside tables where
  outside := bracketed.outside
  fresh := bracketed.fresh
  around := by
    obtain ⟨before, now, there, here, gains⟩ := bracketed.around
    exact ⟨before, now, there, here, gains.mono subset⟩
  nested := bracketed.nested

/-- A table inside is added or exchanged. -/
theorem insert (bracketed : Bracketed base parent scope copied inside tables) {name : String}
    (member : name ∈ inside) {table : Table}
    (within : ∀ outer, table.parent = some outer → Within parent scope inside name outer) :
    Bracketed base parent scope copied inside (tables.insert name table) where
  outside := by
    intro other apart different
    have unequal : other ≠ name := fun same => apart (same ▸ member)
    rw [NameMap.get?_insert, if_neg unequal]
    exact bracketed.outside other apart different
  fresh := bracketed.fresh
  around := by
    have unequal : parent ≠ name := fun same => bracketed.parent_not_mem (same ▸ member)
    rw [NameMap.get?_insert, if_neg unequal]
    exact bracketed.around
  nested := by
    intro other inner content outer found enclosed
    rcases NameMap.get?_insert_eq_some_iff.mp found with ⟨rfl, rfl⟩ | ⟨-, old⟩
    · exact within outer enclosed
    · exact bracketed.nested other inner content outer old enclosed

/-- A table inside is exchanged for one with the same parent. -/
theorem exchange (bracketed : Bracketed base parent scope copied inside tables) {name : String}
    (member : name ∈ inside) {table exchanged : Table} (found : tables.get? name = some table)
    (same : exchanged.parent = table.parent) :
    Bracketed base parent scope copied inside (tables.insert name exchanged) := by
  apply bracketed.insert member
  intro outer enclosed
  exact bracketed.nested name member table outer found (same.symm.trans enclosed)

/-- A table inside is discarded. -/
theorem erase (bracketed : Bracketed base parent scope copied inside tables) {name : String}
    (member : name ∈ inside) :
    Bracketed base parent scope copied inside (tables.erase name) where
  outside := by
    intro other apart different
    have unequal : other ≠ name := fun same => apart (same ▸ member)
    rw [NameMap.get?_erase, if_neg unequal]
    exact bracketed.outside other apart different
  fresh := bracketed.fresh
  around := by
    have unequal : parent ≠ name := fun same => bracketed.parent_not_mem (same ▸ member)
    rw [NameMap.get?_erase, if_neg unequal]
    exact bracketed.around
  nested := by
    intro other inner content outer found enclosed
    obtain ⟨-, old⟩ := NameMap.get?_erase_eq_some_iff.mp found
    exact bracketed.nested other inner content outer old enclosed

/-- The table around the first scope stores what it has not gained yet. -/
theorem gain (bracketed : Bracketed base parent scope copied inside tables) {now : Table}
    (gains : ∀ before later, base.get? parent = some before → tables.get? parent = some later →
      before.Gains copied later → before.Gains copied now) :
    Bracketed base parent scope copied inside (tables.insert parent now) where
  outside := by
    intro other apart different
    rw [NameMap.get?_insert, if_neg different]
    exact bracketed.outside other apart different
  fresh := bracketed.fresh
  around := by
    obtain ⟨before, later, there, here, gained⟩ := bracketed.around
    refine ⟨before, now, there, ?_, gains before later there here gained⟩
    rw [NameMap.get?_insert, if_pos rfl]
  nested := by
    intro other inner content outer found enclosed
    have unequal : other ≠ parent := fun same => bracketed.parent_not_mem (same ▸ inner)
    rw [NameMap.get?_insert, if_neg unequal] at found
    exact bracketed.nested other inner content outer found enclosed

/-- A further name is used inside that no table has. -/
theorem extend (bracketed : Bracketed base parent scope copied inside tables) {name : String}
    (absent : tables.get? name = none)
    (exists_outer : ∀ inner table outer, tables.get? inner = some table →
      table.parent = some outer → ∃ around, tables.get? outer = some around) :
    Bracketed base parent scope copied (inside ++ [name]) tables where
  outside := by
    intro other apart different
    exact bracketed.outside other (fun inner => apart (List.mem_append_left _ inner)) different
  fresh := by
    intro other member
    by_cases inner : other ∈ inside
    · exact bracketed.fresh other inner
    · obtain rfl : other = name := by simpa [inner] using member
      have different : other ≠ parent := by
        rintro rfl
        obtain ⟨-, now, -, here, -⟩ := bracketed.around
        rw [absent] at here
        cases here
      rw [← bracketed.outside other inner different, absent]
  around := bracketed.around
  nested := by
    intro other member table outer found enclosed
    have different : other ≠ name := by
      rintro rfl
      rw [absent] at found
      cases found
    have inner : other ∈ inside := by simpa [different] using member
    obtain ⟨around, bound⟩ := exists_outer other table outer found enclosed
    have apart : outer ≠ name := by
      rintro rfl
      rw [absent] at bound
      cases bound
    obtain ⟨cases, before, after, split, earlier⟩ :=
      bracketed.nested other inner table outer found enclosed
    refine ⟨cases.imp_left (List.mem_append_left _), before, after ++ [name], ?_, ?_⟩
    · rw [split, List.append_assoc, List.cons_append]
    · rw [← List.cons_append, List.mem_append, List.mem_singleton]
      exact fun either => either.elim earlier apart

/-- A confined operation keeps the bracket. -/
theorem step [Hashing] (bracketed : Bracketed base parent scope copied inside space.tables)
    (nested : space.WellNested) (reached : space.TablesReached) {operation : Operation}
    (confined : ∀ name ∈ operation.subject?.toList, name ∈ inside) :
    Bracketed base parent scope (copied ++ space.copies scope operation)
      (inside ++ space.opens operation) (space.run operation).2.tables := by
  have wider := bracketed.mono (List.subset_append_left copied (space.copies scope operation))
  have effect := space.run_tableEffect operation
  generalize (space.run operation).2.tables = tables at effect
  cases effect with
  | kept nothing =>
    rw [nothing, List.append_nil]
    exact wider
  | @ran _ name table isLocal about found actions =>
    have member : name ∈ inside := confined name (by rw [about, Option.toList_some]; simp)
    rw [opens_of_isLocal isLocal, List.append_nil]
    exact wider.exchange member found (Table.parent_runAll ..)
  | @created name absent =>
    have member : name ∈ inside := confined name (List.mem_singleton_self name)
    rw [show space.opens (.createTable name) = [] from rfl, List.append_nil]
    exact wider.insert member nofun
  | @opened outer child table around absent answered =>
    have member : outer ∈ inside := confined outer (List.mem_singleton_self outer)
    have extended : Bracketed base parent scope
        (copied ++ space.copies scope (.openScope outer child)) (inside ++ [child])
        space.tables := by
      apply wider.extend absent
      intro inner table outer found enclosed
      exact nested.exists_outer ⟨table, found, enclosed⟩
    have apart : outer ≠ child := by
      rintro rfl
      rw [absent] at around
      cases around
    rw [show space.opens (.openScope outer child) = [child] by rw [opens, answered]]
    refine extended.insert (by simp) ?_
    intro other enclosed
    obtain rfl : outer = other := Option.some.inj enclosed
    exact ⟨.inl (List.mem_append_left _ member), inside, [], rfl, by simpa using apart⟩
  | @promoted child key outer entry table after collapsed source around stored answered =>
    have member : child ∈ inside := confined child (List.mem_singleton_self child)
    obtain ⟨content, found, enclosed, bound⟩ := of_promotable source
    rw [show space.opens (.promote child key) = [] from rfl, List.append_nil]
    rcases (bracketed.nested child member content outer found enclosed).outer_cases with
      inner | ⟨rfl, rfl⟩
    · exact wider.exchange inner around (Table.parent_of_collapse stored)
    · have copy : entry ∈ space.copies child (.promote child key) := by
        simp [copies, source, answered]
      have sound : entry.Sound := (reached.consistent found).sound
        ((reached.consistent found).live bound)
      apply wider.gain
      intro before later _ here gains
      obtain rfl : table = later := by
        rw [around, Option.some.injEq] at here
        exact here
      exact gains.collapse (List.mem_append_right _ copy) sound.fingerprint stored
  | @closed child =>
    have member : child ∈ inside := confined child (List.mem_singleton_self child)
    rw [show space.opens (.closeScope child) = [] from rfl, List.append_nil]
    exact wider.erase member

/-- A confined history keeps the bracket. -/
theorem runAll [Hashing] (bracketed : Bracketed base parent scope copied inside space.tables)
    (nested : space.WellNested) (reached : space.TablesReached) {operations : List Operation}
    (confined : space.Confined inside operations) :
    Bracketed base parent scope (copied ++ space.copiedIn scope operations)
      (inside ++ space.openedIn operations) (space.runAll operations).tables := by
  induction operations generalizing space copied inside with
  | nil =>
    rw [copiedIn, openedIn, List.append_nil, List.append_nil]
    exact bracketed
  | cons operation rest ih =>
    rw [copiedIn, openedIn, ← List.append_assoc, ← List.append_assoc]
    exact ih (bracketed.step nested reached confined.1)
      (nested.effect (space.run_tableEffect operation)) (reached.effect (space.run_effect operation))
      confined.2

/-- When no name inside is a table any more, all tables but the one around the first scope are the
ones there were. -/
theorem get?_of_closed (bracketed : Bracketed base parent scope copied inside tables)
    (closed : ∀ name ∈ inside, tables.get? name = none) {other : String} (apart : other ≠ parent) :
    tables.get? other = base.get? other := by
  by_cases inner : other ∈ inside
  · rw [closed other inner, bracketed.fresh other inner]
  · exact bracketed.outside other inner apart

/-- When no name inside is a table any more and nothing was copied, the tables are the ones there
were. -/
theorem eq_of_closed (bracketed : Bracketed base parent scope [] inside tables)
    (closed : ∀ name ∈ inside, tables.get? name = none) : tables = base := by
  apply NameMap.ext_get?
  intro other
  by_cases same : other = parent
  · obtain ⟨before, now, there, here, gains⟩ := bracketed.around
    rw [same, there, here, gains.eq_of_nil]
  · exact bracketed.get?_of_closed closed same

/-- Only scopes inside are in a table inside. -/
theorem mem_of_parent_mem (bracketed : Bracketed base parent scope copied inside space.tables)
    (nested : ∀ name table outer, base.get? name = some table → table.parent = some outer →
      ∃ around, base.get? outer = some around) {name outer : String} {table : Table}
    (found : space.tables.get? name = some table) (enclosed : table.parent = some outer)
    (member : outer ∈ inside) : name ∈ inside := by
  by_contra apart
  have old : ∃ before, base.get? name = some before ∧ before.parent = some outer := by
    by_cases same : name = parent
    · obtain ⟨before, now, there, here, gains⟩ := bracketed.around
      rw [same, here, Option.some.injEq] at found
      rw [← found, gains.parent_eq] at enclosed
      exact ⟨before, by rw [same, there], enclosed⟩
    · rw [bracketed.outside name apart same] at found
      exact ⟨table, found, enclosed⟩
  obtain ⟨before, there, inner⟩ := old
  obtain ⟨around, bound⟩ := nested name before outer there inner
  rw [bracketed.fresh outer member] at bound
  cases bound

end Bracketed

/-! ## Closing -/

/-- Opening a scope begins a bracket. -/
theorem bracketed_openScope (nested : space.WellNested) {parent scope : String}
    (opened : (space.openScope parent scope).1 = .ok ()) :
    Bracketed space.tables parent scope [] [scope] (space.openScope parent scope).2.tables := by
  rcases space.openScope_cases parent scope with ⟨fault, refused⟩ | ⟨outer, around, absent, done⟩
  · rw [refused] at opened
    cases opened
  · have empty : Bracketed space.tables parent scope [] [] space.tables :=
      ⟨fun _ _ _ => rfl, nofun, ⟨outer, outer, around, around, .refl⟩, nofun⟩
    have apart : parent ≠ scope := by
      rintro rfl
      rw [absent] at around
      cases around
    rw [done]
    refine (empty.extend absent ?_).insert (List.mem_singleton_self scope) ?_
    · intro inner table outer found enclosed
      exact nested.exists_outer ⟨table, found, enclosed⟩
    · intro other enclosed
      obtain rfl : parent = other := Option.some.inj enclosed
      exact ⟨.inr ⟨rfl, rfl⟩, [], [], rfl, by simpa using apart⟩

/-- A scope that encloses no other can be closed. -/
theorem closeScope_of_innermost {child outer : String} {table : Table}
    (found : space.tables.get? child = some table) (enclosed : table.parent = some outer)
    (innermost : ∀ other ∈ space.tables.values, other.parent ≠ some child) :
    (space.closeScope child).2.tables = space.tables.erase child := by
  have isScope : table.isScope = true := by rw [Table.isScope, enclosed, Option.isSome_some]
  have none : space.tables.values.find? (fun other => other.parent == some child) = none := by
    rw [List.find?_eq_none]
    intro other member same
    exact innermost other member (beq_iff_eq.mp same)
  rw [closeScope, found]
  simp [isScope, none]

/-- Closing adds and exchanges no table. -/
theorem get?_of_closeScope {child name : String} {table : Table}
    (found : (space.closeScope child).2.tables.get? name = some table) :
    space.tables.get? name = some table := by
  rcases space.closeScope_cases child with ⟨fault, refused⟩ | ⟨scope, -, -, -, done⟩
  · rwa [refused] at found
  · rw [done] at found
    exact (NameMap.get?_erase_eq_some_iff.mp found).2

/-- Where a list that is not empty is split, the last element comes at the split or after it. -/
theorem split_concat {α : Type} {front before after : List α} {last here : α}
    (split : front ++ [last] = before ++ here :: after) :
    (after = [] ∧ here = last) ∨ ∃ rest, after = rest ++ [last] ∧ front = before ++ here :: rest := by
  rcases List.eq_nil_or_concat after with rfl | ⟨rest, final, rfl⟩
  · have parts := List.append_inj' split rfl
    exact .inl ⟨rfl, (List.singleton_inj.mp parts.2).symm⟩
  · rw [List.concat_eq_append] at split ⊢
    rw [← List.cons_append, ← List.append_assoc] at split
    have parts := List.append_inj' split rfl
    obtain rfl : last = final := List.singleton_inj.mp parts.2
    exact .inr ⟨rest, rfl, parts.1⟩

namespace Bracketed

variable {base : NameMap Table} {parent scope : String} {copied : List Entry}
  {inside : List String}

/-- Closing a scope inside keeps the bracket. -/
theorem closeScope (bracketed : Bracketed base parent scope copied inside space.tables)
    {name : String} (member : name ∈ inside) :
    Bracketed base parent scope copied inside (space.closeScope name).2.tables := by
  rcases space.closeScope_cases name with ⟨fault, refused⟩ | ⟨table, -, -, -, done⟩
  · rwa [refused]
  · rw [done]
    exact bracketed.erase member

/-- Closing scopes inside one after the other keeps the bracket. -/
theorem closings [Hashing] (bracketed : Bracketed base parent scope copied inside space.tables)
    {names : List String} (subset : names ⊆ inside) :
    Bracketed base parent scope copied inside
      (space.runAll (names.map .closeScope)).tables := by
  induction names generalizing space with
  | nil => exact bracketed
  | cons name rest ih =>
    obtain ⟨member, others⟩ := List.cons_subset.mp subset
    exact ih (bracketed.closeScope member) others

/-- When scopes are closed in the reverse of the order of opening, no table inside is a scope after
that: a scope in the table that is closed next would have been opened after it, and closed
already. -/
theorem root_of_closings [Hashing]
    (bracketed : Bracketed base parent scope copied inside space.tables)
    (nested : ∀ name table outer, base.get? name = some table → table.parent = some outer →
      ∃ around, base.get? outer = some around) {pending : List String} (subset : pending ⊆ inside)
    (ordered : ∀ name ∈ inside, ∀ table outer, space.tables.get? name = some table →
      table.parent = some outer →
      ∃ before after, pending = before ++ name :: after ∧ outer ∉ name :: after)
    {name : String} (member : name ∈ inside) {table : Table}
    (found : (space.runAll (pending.reverse.map .closeScope)).tables.get? name = some table) :
    table.parent = none := by
  induction pending using List.reverseRecOn generalizing space with
  | nil =>
    cases enclosed : table.parent with
    | none => rfl
    | some outer =>
      obtain ⟨before, after, split, -⟩ := ordered name member table outer found enclosed
      exact absurd split (by simp)
  | append_singleton front last ih =>
    have lastInside : last ∈ inside := subset (by simp)
    have closed : ∀ table outer, (space.closeScope last).2.tables.get? last = some table →
        table.parent ≠ some outer := by
      intro scope outer still enclosed
      have open_ := get?_of_closeScope still
      have innermost : ∀ other ∈ space.tables.values, other.parent ≠ some last := by
        intro other listed inner
        obtain ⟨label, bound⟩ := NameMap.mem_values_iff.mp listed
        have labelInside := bracketed.mem_of_parent_mem nested bound inner lastInside
        obtain ⟨before, after, split, apart⟩ := ordered label labelInside other last bound inner
        rcases split_concat split with ⟨rfl, rfl⟩ | ⟨rest, rfl, -⟩
        · simp at apart
        · simp at apart
      rw [closeScope_of_innermost open_ enclosed innermost, NameMap.get?_erase, if_pos rfl] at still
      cases still
    rw [List.reverse_concat, List.map_cons] at found
    refine ih (bracketed.closeScope lastInside) (fun _ inner => subset (by simp [inner])) ?_ found
    intro label labelInside content outer bound enclosed
    obtain ⟨before, after, split, apart⟩ :=
      ordered label labelInside content outer (get?_of_closeScope bound) enclosed
    rcases split_concat split with ⟨-, rfl⟩ | ⟨rest, rfl, rest_eq⟩
    · exact absurd enclosed (closed content outer bound)
    · refine ⟨before, rest, rest_eq, ?_⟩
      intro inner
      exact apart (by rw [← List.cons_append]; exact List.mem_append_left _ inner)

end Bracketed

/-- A table without parent was there before a history, or the history creates it. -/
theorem created_of_root [Hashing] {operations : List Operation} {name : String} {table : Table}
    (found : (space.runAll operations).tables.get? name = some table) (root : table.parent = none) :
    (∃ before, space.tables.get? name = some before ∧ before.parent = none) ∨
      .createTable name ∈ operations := by
  induction operations generalizing space with
  | nil => exact .inl ⟨table, found, root⟩
  | cons operation rest ih =>
    rcases ih found with ⟨after, bound, outermost⟩ | later
    · rcases (space.run_tableEffect operation).parent_cases bound with
        ⟨before, old, same⟩ | ⟨-, created, -⟩ | ⟨_, _, -, -, enclosed, -⟩
      · exact .inl ⟨before, old, same.trans outermost⟩
      · exact .inr (by rw [created]; exact List.mem_cons_self ..)
      · rw [outermost] at enclosed
        cases enclosed
    · exact .inr (List.mem_cons_of_mem _ later)

/-- A history without promotions from a scope copies nothing from it. -/
theorem copiedIn_eq_nil [Hashing] {scope : String} {operations : List Operation}
    (none : ∀ key, .promote scope key ∉ operations) : space.copiedIn scope operations = [] := by
  induction operations generalizing space with
  | nil => rfl
  | cons operation rest ih =>
    have others : (space.run operation).2.copiedIn scope rest = [] :=
      ih fun key member => none key (List.mem_cons_of_mem _ member)
    rw [copiedIn, others, List.append_nil]
    cases operation with
    | promote child key =>
      have different : child ≠ scope := by
        rintro rfl
        exact none key (List.mem_cons_self ..)
      rw [copies]
      split
      · rw [if_neg different]
      · rfl
    | _ => rfl

/-- Operations confined to a scope that has been opened keep the bracket. -/
theorem bracketed_of_confined [Hashing] (nested : space.WellNested) (reached : space.TablesReached)
    {parent scope : String} {operations : List Operation}
    (opened : (space.openScope parent scope).1 = .ok ())
    (confined : (space.openScope parent scope).2.Confined [scope] operations) :
    let inner := (space.openScope parent scope).2
    Bracketed space.tables parent scope (inner.copiedIn scope operations)
      (scope :: inner.openedIn operations) (inner.runAll operations).tables := by
  intro inner
  have innerNested : inner.WellNested := nested.effect (space.tableEffect_openScope parent scope)
  have innerReached : inner.TablesReached := reached.moves (space.moves_openScope parent scope)
  have whole := (bracketed_openScope nested opened).runAll innerNested innerReached confined
  rwa [List.nil_append] at whole

/-- A name inside that still has a table after closing in the reverse of the order of opening is the
name of a table that the operations created. -/
theorem createTable_mem_of_closings [Hashing] (nested : space.WellNested)
    {parent scope name : String} {operations : List Operation} {copied : List Entry}
    {inside : List String}
    (bracketed : Bracketed space.tables parent scope copied inside
      ((space.openScope parent scope).2.runAll operations).tables) (member : name ∈ inside)
    (still : (((space.openScope parent scope).2.runAll operations).runAll
      (inside.reverse.map .closeScope)).hasTable name = true) :
    .createTable name ∈ operations := by
  obtain ⟨table, found⟩ := Option.isSome_iff_exists.mp still
  have root : table.parent = none := by
    refine bracketed.root_of_closings ?_ (List.Subset.refl inside) ?_ member found
    · intro label content outer bound enclosed
      exact nested.exists_outer ⟨content, bound, enclosed⟩
    · intro label labelInside content outer bound enclosed
      exact (bracketed.nested label labelInside content outer bound enclosed).order
  have whole : (space.runAll (.openScope parent scope :: operations ++
      inside.reverse.map .closeScope)).tables.get? name = some table := by
    rw [runAll, List.cons_append, List.foldl_cons, List.foldl_append]
    exact found
  rcases created_of_root whole root with ⟨before, bound, -⟩ | created
  · rw [bracketed.fresh name member] at bound
    cases bound
  · simpa using created

/-- Scopes are isolated brackets. In every space that a history reaches, every operation leaves all
tables but one alone. When a scope is opened, operations about this scope and scopes opened inside
it are run, and all these scopes are closed in whatever order, then all tables are as they were
before, except that the table around the first scope has gained copies of what was promoted from
that scope; without such promotions it too is as it was. Closing in the reverse of the order of
opening leaves none of these names with a table, unless the operations created one under the name
of a scope that they had closed. -/
theorem scopes_are_brackets [Hashing] (configuration : SpaceConfiguration)
    (history : List Operation) :
    let space := (ofConfiguration configuration).runAll history
    (∀ operation, space.Isolated operation) ∧
    ∀ parent scope operations,
      let inner := (space.openScope parent scope).2
      let inside := scope :: inner.openedIn operations
      let after := inner.runAll operations
      (space.openScope parent scope).1 = .ok () → inner.Confined [scope] operations →
      (∀ closings, closings ⊆ inside →
        let closed := after.runAll (closings.map .closeScope)
        (∀ name ∈ inside, closed.hasTable name = false) →
        (∀ other, other ≠ parent → closed.tables.get? other = space.tables.get? other) ∧
        (∃ before now, space.tables.get? parent = some before ∧
          closed.tables.get? parent = some now ∧
          before.Gains (inner.copiedIn scope operations) now) ∧
        ((∀ key, .promote scope key ∉ operations) → closed.tables = space.tables)) ∧
      ∀ name ∈ inside, (after.runAll (inside.reverse.map .closeScope)).hasTable name = true →
        .createTable name ∈ operations := by
  intro space
  refine ⟨space.isolated_run, ?_⟩
  intro parent scope operations inner inside after opened confined
  have nested : space.WellNested := wellNested_runAll configuration history
  have reached : space.TablesReached := tablesReached_runAll configuration history
  have bracketed : Bracketed space.tables parent scope (inner.copiedIn scope operations) inside
      after.tables := bracketed_of_confined nested reached opened confined
  refine ⟨?_, fun name member still => createTable_mem_of_closings nested bracketed member still⟩
  intro closings subset closed gone
  have closing : Bracketed space.tables parent scope (inner.copiedIn scope operations) inside
      closed.tables := bracketed.closings subset
  have absent : ∀ name ∈ inside, closed.tables.get? name = none :=
    fun name member => NameMap.contains_eq_false_iff.mp (gone name member)
  refine ⟨fun other apart => closing.get?_of_closed absent apart, closing.around, ?_⟩
  intro none
  rw [copiedIn_eq_nil none] at closing
  exact closing.eq_of_closed absent

/-- A scope of a table and a scope in that one store values, one of them is copied from the inner
scope to the outer one, and both are closed. The tables are the ones before. -/
theorem tables_after_nested_scopes :
    let space := (ofConfiguration { digestLength := 1 }).runAll
      [.createTable "t", .collapse "t" "v" (.int 1)]
    let inner := (space.openScope "t" "s").2
    let operations : List Operation := [.collapse "s" "v" (.int 1), .openScope "s" "u",
      .collapse "u" "v" (.int 3), .promote "u" "v:9"]
    (space.openScope "t" "s").1 = .ok () ∧ inner.Confined ["s"] operations ∧
      (inner.runAll operations).hasTable "u" = true ∧
      ((inner.runAll operations).runAll [.closeScope "u", .closeScope "s"]).tables =
        space.tables := by
  intro space inner operations
  have opened : (space.openScope "t" "s").1 = .ok () := by decide +kernel
  have confined : inner.Confined ["s"] operations := by decide +kernel
  obtain ⟨-, bracket⟩ := scopes_are_brackets { digestLength := 1 }
    [.createTable "t", .collapse "t" "v" (.int 1)]
  obtain ⟨restored, -⟩ := bracket "t" "s" operations opened confined
  obtain ⟨-, -, same⟩ := restored ["u", "s"] (by decide +kernel) (by decide +kernel)
  exact ⟨opened, confined, by decide +kernel, same (by simp [operations])⟩

end Space

end ContentSpace
