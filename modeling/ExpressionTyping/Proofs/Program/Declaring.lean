import ExpressionTyping.Proofs.Program.BindingOnce
import ExpressionTyping.Proofs.Program.Ledger
import ExpressionTyping.Proofs.Program.ObjectTypes

/-!
# What declaring a name does

Binding declares one name after another. To declare a name in a scope is one of three things: the
symbol that the name has there already is used again, the name is taken and the declaration gets a
symbol that no name leads to, or a new symbol is added and the name leads to it from then on
(`Bind.Prepares`). Everything else about binding is derived from these three cases.

Names of values and names of types are kept apart: a scope leads from a name to a symbol of that
name and of the right kind, and no two scopes lead to one symbol (`Program.Sorted`). The blocks that
binding meets open scopes in the order in which they start (`Program.Binds`).
-/

set_option autoImplicit false

namespace ExpressionTyping

/-! ## Values and types -/

/-- Whether a name is one of a type. -/
def Key.isType : Key → Bool
  | value _ => false
  | type _ => true

/-- Whether symbols of a sort are types. -/
def SymbolSort.isType : SymbolSort → Bool
  | interface | typeAlias => true
  | _ => false

/-- Whether a declaration is one of a symbol of a sort. -/
def Declaration.isOf : Declaration → SymbolSort → Bool
  | .variableDecl _ constant _ _, sort => sort.isVariable && constant == decide (sort = .constant)
  | .function _ _ _, sort => sort = .function
  | .interface _ _, sort => sort = .interface
  | .typeAlias _ _ _, sort => sort = .typeAlias

namespace Declaration

variable {made : Declaration} {sort : SymbolSort} (h : made.isOf sort = true)
include h

/-- A declaration is one of a type exactly when its symbol is of the sort of a type. -/
theorem isType_eq : sort.isType = made.isType := by
  cases made with
  | variableDecl =>
    rw [isOf, Bool.and_eq_true] at h
    cases sort <;> cases h.1 <;> rfl
  | function | interface | typeAlias =>
    cases of_decide_eq_true h
    rfl

/-- No declaration of a file is one of a method, which stands in the members of a type. -/
theorem ne_method : sort ≠ .method := by
  rintro rfl
  cases made <;> cases h

/-- A declaration lists members of an interface exactly when its symbol is of that sort. -/
theorem isInterface_eq : made.isInterface = decide (sort = .interface) := by
  cases made with
  | variableDecl =>
    rw [isOf, Bool.and_eq_true] at h
    cases sort <;> cases h.1 <;> rfl
  | function | interface | typeAlias =>
    cases of_decide_eq_true h
    rfl

/-- A declaration of a symbol with a type of its own is an interface. -/
theorem isInterface_of_ownsType (howns : sort.ownsType = true) : made.isInterface = true := by
  cases sort with
  | interface => exact isInterface_eq h
  | method => exact absurd rfl (ne_method h)
  | _ => cases howns

end Declaration

/-- Names in the same meaning with the same text are the same. -/
theorem Key.ext_of_name {key other : Key} (hname : key.name = other.name)
    (htype : key.isType = other.isType) : key = other := by
  cases key with
  | value name =>
    cases other with
    | value other => exact congrArg Key.value hname
    | type other => cases htype
  | type name =>
    cases other with
    | value other => cases htype
    | type other => exact congrArg Key.type hname

/-- Inserting a name adds it behind the others, unless it is there. -/
theorem SymbolTable.names_insert {α : Type} (table : SymbolTable α) (name : String) (value : α) :
    (table.insert name value).names =
      if name ∈ table.names then table.names else table.names ++ [name] := by
  obtain ⟨entries⟩ := table
  show (insertEntry name value entries).map Prod.fst =
    if name ∈ entries.map Prod.fst then entries.map Prod.fst else entries.map Prod.fst ++ [name]
  induction entries with
  | nil => rfl
  | cons entry rest ih =>
    rw [insertEntry]
    by_cases hentry : entry.1 = name
    · simp [hentry]
    · have hne : (entry.1 == name) = false := beq_false_of_ne hentry
      rw [hne, if_neg Bool.false_ne_true, List.map_cons, ih, List.map_cons]
      by_cases hmem : name ∈ rest.map Prod.fst
      · rw [if_pos hmem, if_pos (List.mem_cons_of_mem _ hmem)]
      · have hnot : name ∉ entry.1 :: rest.map Prod.fst := by
          rw [List.mem_cons, not_or]
          exact ⟨Ne.symm hentry, hmem⟩
        rw [if_neg hmem, if_neg hnot, List.cons_append]

/-- Inserting a name keeps the names of a table apart. -/
theorem SymbolTable.names_insert_nodup {α : Type} {table : SymbolTable α} (h : table.names.Nodup)
    (name : String) (value : α) : (table.insert name value).names.Nodup := by
  rw [names_insert]
  split
  · exact h
  · rename_i hnew
    refine List.nodup_append.mpr ⟨h, List.nodup_singleton _, ?_⟩
    rintro a ha b hb rfl
    exact hnew (List.mem_singleton.mp hb ▸ ha)

/-- Inserting a name into a scope keeps its values apart. -/
theorem Scope.insert_once {scope : Scope} (h : scope.values.names.Nodup) (key : Key)
    (id : SymbolId) : (scope.insert key id).values.names.Nodup := by
  cases key with
  | value name => exact SymbolTable.names_insert_nodup h name id
  | type name => exact h

/-- A scope leads from a name to a symbol of that name and of the right kind, no two scopes lead to
one symbol, and no name of a value stands in a scope twice. -/
structure Program.Sorted (program : Program) : Prop where
  named : ∀ {scope : ScopeId} {key : Key} {id : SymbolId},
    (program.scope scope).get? key = some id → ∃ symbol, program.symbol? id = some symbol ∧
      symbol.name = key.name ∧ symbol.sort.isType = key.isType
  apart : ∀ {scope scope' : ScopeId} {key key' : Key} {id : SymbolId},
    (program.scope scope).get? key = some id → (program.scope scope').get? key' = some id →
      scope = scope'
  once : ∀ scope : ScopeId, (program.scope scope).values.names.Nodup

namespace Program

/-- A scope that is not there is empty. -/
theorem scope_of_le {program : Program} {id : ScopeId} (h : program.scopes.size ≤ id.index) :
    program.scope id = default := by
  rw [scope, Array.getElem?_eq_none h]
  rfl

/-- No name leads anywhere from a scope that is not there. -/
theorem get?_default (key : Key) : (default : Scope).get? key = none := by
  cases key <;> rfl

/-- Where values and types are kept apart, one symbol has one name. -/
theorem Sorted.key_eq {program : Program} (h : program.Sorted) {scope scope' : ScopeId}
    {key key' : Key} {id : SymbolId} (hkey : (program.scope scope).get? key = some id)
    (hkey' : (program.scope scope').get? key' = some id) : key = key' := by
  obtain ⟨symbol, hsymbol, hname, htype⟩ := h.named hkey
  obtain ⟨symbol', hsymbol', hname', htype'⟩ := h.named hkey'
  cases hsymbol.symm.trans hsymbol'
  exact Key.ext_of_name (hname.symm.trans hname') (htype.symm.trans htype')

/-- No name leads to a symbol that is still to come. -/
theorem Sorted.get?_ne_new {program : Program} (h : program.Sorted) (scope : ScopeId) (key : Key) :
    (program.scope scope).get? key ≠ some ⟨program.symbols.size⟩ := by
  intro hkey
  obtain ⟨symbol, hsymbol, -⟩ := h.named hkey
  exact absurd (HasSymbol.of_symbol? hsymbol).1 (Nat.lt_irrefl _)

/-- In the program without files, no name leads anywhere. -/
theorem empty_sorted : Program.empty.Sorted where
  named {scope key id} h := by
    rw [scope_of_le (Nat.zero_le _), get?_default] at h
    cases h
  apart {scope scope' key key' id} h := by
    rw [scope_of_le (Nat.zero_le _), get?_default] at h
    cases h
  once scope := by
    rw [scope_of_le (Nat.zero_le _)]
    exact List.nodup_nil

/-- Programs with the same names in their scopes and with symbols that keep their names and sorts
are sorted alike. -/
theorem Sorted.of_scopes {before after : Program} (h : before.Sorted)
    (hsymbols : Continues Symbol.Grows before.symbols after.symbols)
    (hkeys : ∀ (scope : ScopeId) (key : Key),
      (after.scope scope).get? key = (before.scope scope).get? key)
    (hnames : ∀ scope : ScopeId,
      (after.scope scope).values.names = (before.scope scope).values.names) : after.Sorted where
  named {scope key id} hkey := by
    obtain ⟨symbol, hsymbol, hname, htype⟩ := h.named (hkeys scope key ▸ hkey)
    obtain ⟨later, hlater, hgrows⟩ := hsymbols _ _ hsymbol
    exact ⟨later, hlater, hgrows.name.trans hname, hgrows.sort ▸ htype⟩
  apart {scope scope' key key' id} hkey hkey' := by
    rw [hkeys] at hkey hkey'
    exact h.apart hkey hkey'
  once scope := by
    rw [hnames]
    exact h.once scope

/-! ## Blocks that are opened -/

end Program

/-- What is fixed about the scope of a block when it is opened. -/
structure BlockScope where
  /-- The scope. -/
  id : ScopeId
  /-- The scopes around it, innermost first. -/
  enclosing : List ScopeId
  /-- The characters it covers. -/
  span : Span

/-- The scope of a block stands in a program. -/
def Program.HasBlock (program : Program) (block : BlockScope) : Prop :=
  ∃ scope, program.scope? block.id = some scope ∧ scope.enclosing = block.enclosing ∧
    scope.span = block.span

/-- The scope of a block stands inside of those that the block says. -/
theorem Program.HasBlock.enclosing {program : Program} {block : BlockScope}
    (h : program.HasBlock block) : (program.scope block.id).enclosing = block.enclosing := by
  obtain ⟨scope, hscope, henclosing, -⟩ := h
  obtain ⟨-, rfl⟩ := HasScope.of_scope? hscope
  exact henclosing

/-- The scope of a block has the span of the block. -/
theorem Program.HasBlock.span {program : Program} {block : BlockScope}
    (h : program.HasBlock block) : (program.scope block.id).span = block.span := by
  obtain ⟨scope, hscope, -, hspan⟩ := h
  obtain ⟨-, rfl⟩ := HasScope.of_scope? hscope
  exact hspan

/-- The scope of a block stays one while scopes only gain names. -/
theorem Program.HasBlock.mono {before after : Program}
    (h : Continues Scope.Grows before.scopes after.scopes) {block : BlockScope}
    (hblock : before.HasBlock block) : after.HasBlock block := by
  obtain ⟨scope, hscope, henclosing, hspan⟩ := hblock
  obtain ⟨later, hlater, hgrows⟩ := h _ _ hscope
  exact ⟨later, hlater, hgrows.enclosing.trans henclosing, hgrows.span.trans hspan⟩

/-- One program is reached from another by binding names in a file, where blocks were opened. -/
structure Program.Binds (file : FileId) (before after : Program) (opened : List BlockScope) :
    Prop where
  reaches : before.types.Reaches after.types
  symbols : Continues Symbol.Grows before.symbols after.symbols
  scopes : Continues Scope.Grows before.scopes after.scopes
  sorted : before.Sorted → after.Sorted
  found : ∀ {scope : ScopeId} {key : Key} {id : SymbolId},
    (before.scope scope).get? key = some id → (after.scope scope).get? key = some id
  size : after.scopes.size = before.scopes.size + opened.length
  held : ∀ block ∈ opened, after.HasBlock block
  assignments : ∀ scope : ScopeId,
    (after.scope scope).assignments = (before.scope scope).assignments
  files : after.files.size = before.files.size
  listed : (after.file? file).map (fun info => (info.length, info.scopes)) =
    (before.file? file).map fun info =>
      (info.length, info.scopes ++ opened.map BlockScope.id)
  tidy : before.Tidy → after.Tidy

namespace Program.Binds

variable {file : FileId} {before after later : Program} {opened opened' : List BlockScope}

/-- Binding nothing leads to the same program. -/
theorem refl (file : FileId) (program : Program) : program.Binds file program [] where
  reaches := .refl
  symbols := .refl Symbol.Grows.refl _
  scopes := .refl Scope.Grows.refl _
  sorted := id
  found := id
  size := rfl
  held := nofun
  assignments _ := rfl
  files := rfl
  listed := by simp
  tidy := id

/-- Reports do not count when names are bound. -/
theorem issues (file : FileId) (program : Program) (issues : List FileIssue) :
    program.Binds file { program with issues } [] :=
  { refl file program with
    sorted := fun hs => hs.of_scopes (.refl Symbol.Grows.refl _) (fun _ _ => rfl) fun _ => rfl
    tidy := fun h => h.same rfl rfl }

/-- What is bound up to a program and what is bound from it on are bound in a row. -/
theorem trans (h : before.Binds file after opened) (h' : after.Binds file later opened') :
    before.Binds file later (opened ++ opened') where
  reaches := h.reaches.trans h'.reaches
  symbols := h.symbols.trans (R := Symbol.Grows) (fun _ _ _ => .trans) h'.symbols
  scopes := h.scopes.trans (R := Scope.Grows) (fun _ _ _ => .trans) h'.scopes
  sorted := h'.sorted ∘ h.sorted
  found hkey := h'.found (h.found hkey)
  size := by rw [h'.size, h.size, List.length_append, Nat.add_assoc]
  held block hblock := by
    rcases List.mem_append.mp hblock with hold | hnew
    · exact (h.held block hold).mono h'.scopes
    · exact h'.held block hnew
  assignments scope := (h'.assignments scope).trans (h.assignments scope)
  files := h'.files.trans h.files
  listed := by
    have hlisted := h.listed
    rw [h'.listed]
    cases hbefore : before.file? file with
    | none =>
      rw [hbefore] at hlisted
      rw [Option.map_eq_none_iff.mp hlisted]
      rfl
    | some info =>
      rw [hbefore] at hlisted
      obtain ⟨middle, hmiddle, heq⟩ := Option.map_eq_some_iff.mp hlisted
      obtain ⟨hlength, hscopes⟩ := Prod.mk.inj heq
      rw [hmiddle, Option.map_some, Option.map_some, hlength, hscopes, List.map_append,
        List.append_assoc]
  tidy := h'.tidy ∘ h.tidy

/-- Binding leaves at least as many scopes. -/
theorem size_le (h : before.Binds file after opened) :
    before.scopes.size ≤ after.scopes.size := by
  rw [h.size]
  exact Nat.le_add_right _ _

/-- Binding leaves the scopes of a program in place. -/
theorem hasScope (h : before.Binds file after opened) {id : ScopeId} (hid : before.HasScope id) :
    after.HasScope id :=
  Nat.lt_of_lt_of_le hid h.size_le

end Program.Binds

/-! ## Declaring one name -/

namespace Bind

variable {s : Program} {site : Site} {target : ScopeId} {key : Key} {sort : SymbolSort}
  {id : SymbolId} {middle : Program}

/-- The type that a new name starts with. An interface has a type of its own, and other names get
theirs later. -/
inductive StartsWith (table : TypeTable) : Key → SymbolSort → TypeId → TypeTable → Prop where
  | value (name : String) (sort : SymbolSort) : StartsWith table (.value name) sort .any table
  | interface (name : String) :
      StartsWith table (.type name) .interface (table.add (.named name)).1
        (table.add (.named name)).2
  | other (name : String) {sort : SymbolSort} (hsort : sort ≠ .interface) :
      StartsWith table (.type name) sort .any table

/-- A new type name starts with the type that binding gives it. -/
theorem StartsWith.startType (name : String) (sort : SymbolSort) (table : TypeTable) :
    StartsWith table (.type name) sort (Bind.startType name sort table).1
      (Bind.startType name sort table).2 := by
  unfold Bind.startType
  split
  · subst sort
    exact .interface name
  · exact .other name ‹_›

/-- The type that a name starts with stands in a table that is reached from the earlier one. -/
theorem StartsWith.reaches {table later : TypeTable} {type : TypeId}
    (h : StartsWith table key sort type later) : table.Reaches later := by
  cases h with
  | value | other => exact .refl
  | interface name => exact .single (.addObject (some name) .empty [])

/-- What declaring a name in a scope does before the declaration is recorded: it finds the symbol
that the name has and adds to, or it finds the name taken, or it adds the name. -/
inductive Prepares (s : Program) (target : ScopeId) (key : Key) (sort : SymbolSort) :
    SymbolId → Program → Prop where
  | merged {id : SymbolId} (hfound : (s.scope target).get? key = some id)
      (hmerges : (s.symbol id).sort.merges sort = true) : Prepares s target key sort id s
  | taken {other : SymbolId} (hfound : (s.scope target).get? key = some other)
      (hmerges : ¬(s.symbol other).sort.merges sort = true) (issues : List FileIssue)
      (hvalue : key.isType = false) :
      Prepares s target key sort ⟨s.symbols.size⟩
        { s with symbols := s.symbols.push ⟨key.name, sort, [], .any⟩, issues }
  | added (hmissing : (s.scope target).get? key = none) {types : TypeTable} (type : TypeId)
      (hstarts : StartsWith s.types key sort type types) :
      Prepares s target key sort ⟨s.symbols.size⟩
        { s with
          types
          symbols := s.symbols.push ⟨key.name, sort, [], type⟩
          scopes := s.scopes.modify target.index (·.insert key ⟨s.symbols.size⟩) }

/-- Declaring a value finds or adds its name and then records the declaration. -/
theorem declareValue_prepares (site : Site) (target : ScopeId) (name : Identifier)
    (sort : SymbolSort) (number : Nat) (s : Program) :
    ∃ id middle, Prepares s target (.value name.text) sort id middle ∧
      (declareValue site target name sort number).run s =
        (id, recorded site id name number middle) := by
  cases hfound : (s.scope target).values.get? name.text with
  | some existing =>
    have hkey : (s.scope target).get? (.value name.text) = some existing := hfound
    by_cases hmerges : (s.symbol existing).sort.merges sort = true
    · refine ⟨existing, s, .merged hkey hmerges, ?_⟩
      exact declareValue_run_of_merges site hfound hmerges number
    · refine ⟨_, _, .taken hkey hmerges (reported site name s).issues rfl, ?_⟩
      exact declareValue_run_of_taken site hfound hmerges number
  | none =>
    have hkey : (s.scope target).get? (.value name.text) = none := hfound
    refine ⟨_, _, .added hkey .any (.value name.text sort), ?_⟩
    exact declareValue_run_of_new site hfound number

/-- Declaring a type is reported where its name is taken, and else finds or adds its name and
records the declaration. -/
theorem declareType_prepares (site : Site) (name : Identifier) (sort : SymbolSort) (number : Nat)
    (s : Program) :
    (∃ other issues, (s.scope site.scope).get? (.type name.text) = some other ∧
      ¬(s.symbol other).sort.merges sort = true ∧
        (declareType site name sort number).run s = (none, { s with issues })) ∨
      ∃ id middle, Prepares s site.scope (.type name.text) sort id middle ∧
        (declareType site name sort number).run s =
          (some id, recorded site id name number middle) := by
  cases hfound : (s.scope site.scope).types.get? name.text with
  | some existing =>
    have hkey : (s.scope site.scope).get? (.type name.text) = some existing := hfound
    by_cases hmerges : (s.symbol existing).sort.merges sort = true
    · refine .inr ⟨existing, s, .merged hkey hmerges, ?_⟩
      exact declareType_run_of_merges hfound hmerges number
    · refine .inl ⟨existing, (reported site name s).issues, hkey, hmerges, ?_⟩
      exact declareType_run_of_taken hfound hmerges number
  | none =>
    have hkey : (s.scope site.scope).get? (.type name.text) = none := hfound
    refine .inr ⟨_, _, .added hkey _ (.startType name.text sort s.types), ?_⟩
    exact declareType_run_of_new hfound number

namespace Prepares

variable (h : Prepares s target key sort id middle)
include h

/-- The scopes of the program before the declaration is recorded. -/
theorem scope_cases (scope : ScopeId) :
    middle.scope scope = s.scope scope ∨
      scope = target ∧ s.HasScope target ∧ (s.scope target).get? key = none ∧
        id = ⟨s.symbols.size⟩ ∧ middle.scope scope = (s.scope scope).insert key id := by
  cases h with
  | merged => exact .inl rfl
  | taken => exact .inl rfl
  | added hmissing type hstarts =>
    unfold Program.scope
    rw [Array.getElem?_modify]
    split
    · rename_i heq
      obtain rfl : target = scope := congrArg ScopeId.mk heq
      cases hscope : s.scopes[target.index]? with
      | none => exact .inl rfl
      | some own =>
        have hhas := (Array.getElem?_eq_some_iff.mp hscope).1
        refine .inr ⟨rfl, hhas, ?_, rfl, rfl⟩
        rw [← hscope]
        exact hmissing
    · exact .inl rfl

/-- A name leads where it led before, or it is the new one. -/
theorem get? {scope : ScopeId} {other : Key} {found : SymbolId}
    (hfound : (middle.scope scope).get? other = some found) :
    (s.scope scope).get? other = some found ∨
      scope = target ∧ other = key ∧ found = id ∧ id = ⟨s.symbols.size⟩ := by
  rcases h.scope_cases scope with heq | ⟨htarget, -, -, hid, heq⟩
  · rw [heq] at hfound
    exact .inl hfound
  · rw [heq, Scope.get?_insert] at hfound
    split at hfound
    · exact .inr ⟨htarget, ‹_›, (Option.some.inj hfound).symm, hid⟩
    · exact .inl hfound

/-- A name that led somewhere leads there still. -/
theorem found {scope : ScopeId} {other : Key} {found : SymbolId}
    (hfound : (s.scope scope).get? other = some found) :
    (middle.scope scope).get? other = some found := by
  rcases h.scope_cases scope with heq | ⟨rfl, -, hmissing, -, heq⟩
  · rw [heq]
    exact hfound
  · have hne : other ≠ key := by
      rintro rfl
      cases hfound.symm.trans hmissing
    rw [heq, Scope.get?_insert, if_neg hne]
    exact hfound

/-- The name leads to the symbol of the declaration, unless it is a value whose name is taken. -/
theorem leads (htarget : s.HasScope target) :
    (middle.scope target).get? key = some id ∨ key.isType = false ∧
      ∃ other, (s.scope target).get? key = some other ∧
        ¬(s.symbol other).sort.merges sort = true := by
  cases h with
  | merged hfound => exact .inl hfound
  | taken hfound hmerges issues hvalue => exact .inr ⟨hvalue, _, hfound, hmerges⟩
  | added =>
    refine .inl ?_
    unfold Program.scope
    rw [Array.getElem?_modify, if_pos rfl, Array.getElem?_eq_getElem htarget, Option.map_some,
      Option.getD_some, Scope.get?_insert, if_pos rfl]

/-- Declaring a name only adds to symbols. -/
theorem symbols : Continues Symbol.Grows s.symbols middle.symbols := by
  cases h with
  | merged => exact .refl Symbol.Grows.refl _
  | taken | added => exact .push Symbol.Grows.refl _ _

/-- The symbol of the declaration has the name and the sort that are declared. -/
theorem symbol (hs : s.Sorted) :
    ∃ symbol, middle.symbol? id = some symbol ∧ symbol.name = key.name ∧ symbol.sort = sort := by
  cases h with
  | merged hfound hmerges =>
    obtain ⟨symbol, hsymbol, hname, -⟩ := hs.named hfound
    obtain ⟨-, rfl⟩ := Program.HasSymbol.of_symbol? hsymbol
    exact ⟨_, hsymbol, hname, SymbolSort.eq_of_merges hmerges⟩
  | taken | added => exact ⟨_, Array.getElem?_push_size, rfl, rfl⟩

/-- Declaring a name keeps values and types apart. -/
theorem sorted (hsort : sort.isType = key.isType) (hs : s.Sorted) : middle.Sorted where
  named {scope other found} hfound := by
    rcases h.get? hfound with hold | ⟨-, rfl, rfl, -⟩
    · obtain ⟨symbol, hsymbol, hname, htype⟩ := hs.named hold
      obtain ⟨later, hlater, hgrows⟩ := h.symbols _ _ hsymbol
      exact ⟨later, hlater, hgrows.name.trans hname, hgrows.sort ▸ htype⟩
    · obtain ⟨symbol, hsymbol, hname, rfl⟩ := h.symbol hs
      exact ⟨symbol, hsymbol, hname, hsort⟩
  apart {scope scope' other other' found} hfound hfound' := by
    rcases h.get? hfound with hold | ⟨htarget, -, rfl, hid⟩
    · rcases h.get? hfound' with hold' | ⟨-, -, rfl, hid⟩
      · exact hs.apart hold hold'
      · exact absurd (hid ▸ hold) (hs.get?_ne_new scope other)
    · rcases h.get? hfound' with hold' | ⟨htarget', -⟩
      · exact absurd (hid ▸ hold') (hs.get?_ne_new scope' other')
      · rw [htarget, htarget']
  once scope := by
    rcases h.scope_cases scope with heq | ⟨-, -, -, -, heq⟩
    · rw [heq]
      exact hs.once scope
    · rw [heq]
      exact Scope.insert_once (hs.once scope) key id

/-- Declaring a name opens no block. -/
theorem binds (file : FileId) (hsort : sort.isType = key.isType) (hmethod : sort ≠ .method) :
    s.Binds file middle [] where
  reaches := by
    cases h with
    | merged | taken => exact .refl
    | added hmissing type hstarts => exact hstarts.reaches
  symbols := h.symbols
  scopes := by
    cases h with
    | merged | taken => exact .refl Scope.Grows.refl _
    | added =>
      exact .modify Scope.Grows.refl _ _ fun scope => by cases key <;> exact ⟨rfl, rfl⟩
  sorted := h.sorted hsort
  found := h.found
  size := by
    cases h with
    | merged | taken => rfl
    | added => exact Array.size_modify
  held := nofun
  assignments scope := by
    rcases h.scope_cases scope with heq | ⟨-, -, -, -, heq⟩
    · rw [heq]
    · rw [heq]
      cases key <;> rfl
  files := by cases h <;> rfl
  listed := by
    have hfiles : middle.file? file = s.file? file := by cases h <;> rfl
    simp [hfiles]
  tidy hs := by
    -- an interface is a name of a type
    have hvalue {name : String} (hkey : key = .value name) : sort ≠ .interface := by
      rintro rfl
      rw [hkey] at hsort
      cases hsort
    have hown (hother : sort ≠ .interface) : ¬sort.ownsType = true := by
      cases sort with
      | interface => exact absurd rfl hother
      | method => exact absurd rfl hmethod
      | _ => exact Bool.false_ne_true
    cases h with
    | merged => exact hs
    | taken hfound hmerges issues hkey =>
      refine hs.push ⟨key.name, sort, [], .any⟩ ?_ rfl rfl
      cases key with
      | value name => exact hown (hvalue rfl)
      | type name => cases hkey
    | added hmissing type hstarts =>
      cases hstarts with
      | value name => exact hs.push ⟨name, sort, [], .any⟩ (hown (hvalue rfl)) rfl rfl
      | interface name => exact hs.pushOwner .interface (.empty s) rfl rfl
      | other name hother => exact hs.push ⟨name, sort, [], .any⟩ (hown hother) rfl rfl

end Prepares

/-- Recording a declaration changes no scope. -/
theorem recorded_binds (site : Site) (id : SymbolId) (name : Identifier) (number : Nat)
    (s : Program) : s.Binds site.file (recorded site id name number s) [] := by
  have hsymbols : Continues Symbol.Grows s.symbols (recorded site id name number s).symbols :=
    .modify Symbol.Grows.refl _ _ fun _ => ⟨rfl, rfl, List.prefix_append _ _⟩
  refine ⟨.refl, hsymbols, .refl Scope.Grows.refl _, fun hs => ?_, fun h => h, rfl, nofun,
    fun _ => rfl, Array.size_modify, ?_, fun hs => ?_⟩
  · exact hs.of_scopes hsymbols (fun _ _ => rfl) fun _ => rfl
  · have hfile : (recorded site id name number s).file? site.file =
        (s.file? site.file).map fun info =>
          { info with declarations := (number, id) :: info.declarations } := by
      show (s.files.modify site.file.index _)[site.file.index]? = _
      rw [Array.getElem?_modify, if_pos rfl]
      rfl
    rw [hfile, Option.map_map]
    simp [Function.comp_def]
  · have hmodified : (recorded site id name number s).symbols = s.symbols.modify id.index
        fun symbol => { symbol with
          declarations := symbol.declarations ++ [⟨site.file, name.node.span.start⟩] } := rfl
    exact hs.modify rfl hmodified (fun _ => ⟨rfl, rfl, List.prefix_append _ _⟩) fun _ _ _ => rfl

/-! ## Statements -/

/-- Every declaration that is handed on is one of its symbol. -/
def Kinds (program : Program) (bound : List Bound) : Prop :=
  ∀ id made, Bound.declaration id made ∈ bound → ∃ symbol, program.symbol? id = some symbol ∧
    made.isOf symbol.sort = true

/-- What is handed on stays one of its symbol while symbols keep their sorts. -/
theorem Kinds.mono {before after : Program} {bound : List Bound} (h : Kinds before bound)
    (hsymbols : Continues Symbol.Grows before.symbols after.symbols) : Kinds after bound := by
  intro id made hmem
  obtain ⟨symbol, hsymbol, htype⟩ := h id made hmem
  obtain ⟨later, hlater, hgrows⟩ := hsymbols _ _ hsymbol
  exact ⟨later, hlater, hgrows.sort ▸ htype⟩

/-- What is handed on in a row is handed on under symbols of its sorts. -/
theorem Kinds.append {program : Program} {bound bound' : List Bound} (h : Kinds program bound)
    (h' : Kinds program bound') : Kinds program (bound ++ bound') := by
  intro id made hmem
  rcases List.mem_append.mp hmem with hold | hnew
  · exact h id made hold
  · exact h' id made hnew

/-- A new symbol was not handed on before. -/
theorem Kinds.not_mem_new {program : Program} {bound : List Bound} (h : Kinds program bound)
    (made : Declaration) : .declaration ⟨program.symbols.size⟩ made ∉ bound := by
  intro hmem
  obtain ⟨symbol, hsymbol, -⟩ := h _ _ hmem
  exact absurd (Program.HasSymbol.of_symbol? hsymbol).1 (Nat.lt_irrefl _)

/-- A declaration is recorded after it was prepared. -/
theorem Prepares.recorded_binds (h : Prepares s target key sort id middle)
    (hsort : sort.isType = key.isType) (hmethod : sort ≠ .method) (site : Site) (name : Identifier)
    (number : Nat) : s.Binds site.file (recorded site id name number middle) [] :=
  (h.binds site.file hsort hmethod).trans (Bind.recorded_binds site id name number middle)

/-- A declaration is handed on with a symbol of its sort. -/
theorem Prepares.recorded_kinds (h : Prepares s target key sort id middle) (hs : s.Sorted)
    (made : Declaration) (hmade : made.isOf sort = true) (site : Site) (name : Identifier)
    (number : Nat) : Kinds (recorded site id name number middle) [.declaration id made] := by
  intro id' made' hmem
  cases List.mem_singleton.mp hmem
  obtain ⟨symbol, hsymbol, -, rfl⟩ := h.symbol hs
  obtain ⟨later, hlater, hgrows⟩ :=
    (Bind.recorded_binds site id name number middle).symbols _ _ hsymbol
  exact ⟨later, hlater, hgrows.sort ▸ hmade⟩

/-- A variable is declared as a symbol of its form. -/
theorem isOf_variableTarget (site : Site) (form : VariableForm) (scope : ScopeId)
    (type? : Option TypeNode) (initializer : Option Expr) :
    (Declaration.variableDecl scope (form = .constant) type? initializer).isOf
      (variableTarget site form).2 = true := by
  cases form <;> rfl

/-- Every form of variable is a value. -/
theorem isType_variableTarget (site : Site) (form : VariableForm) :
    (variableTarget site form).2.isType = false := by
  cases form <;> rfl

/-- No form of variable is a method. -/
theorem variableTarget_ne_method (site : Site) (form : VariableForm) :
    (variableTarget site form).2 ≠ .method :=
  Declaration.ne_method (isOf_variableTarget site form site.scope none none)

/-- A list of variables opens no block, and hands on values. -/
theorem variableList_binds (site : Site) (form : VariableForm) (list : List VariableDeclaration)
    (s : Program) :
    s.Binds site.file ((variableList site form list).run s).2 [] ∧
      (s.Sorted → Kinds ((variableList site form list).run s).2
        ((variableList site form list).run s).1) := by
  induction list generalizing s with
  | nil => exact ⟨.refl _ _, fun _ => nofun⟩
  | cons declaration rest ih =>
    by_cases hname : declaration.name.isMissing = true
    · rw [variableList_run_of_missing site form hname]
      exact ih s
    · obtain ⟨id, middle, hprepares, hdeclared⟩ := declareValue_prepares site
        (variableTarget site form).1 declaration.name (variableTarget site form).2
        declaration.node.id s
      rw [variableList_cons_run site form rest hname hdeclared]
      have hfirst := hprepares.recorded_binds (isType_variableTarget site form)
        (variableTarget_ne_method site form) site declaration.name declaration.node.id
      obtain ⟨hrest, hkinds⟩ := ih (recorded site id declaration.name declaration.node.id middle)
      refine ⟨hfirst.trans hrest, fun hs => ?_⟩
      exact ((hprepares.recorded_kinds hs _ (isOf_variableTarget site form _ _ _) site _ _).mono
        hrest.symbols).append (hkinds (hfirst.sorted hs))

/-- A function opens no block, and is handed on as one. -/
theorem function_binds (site : Site) (declaration : FunctionDeclaration) (s : Program) :
    s.Binds site.file ((Bind.function site declaration).run s).2 [] ∧
      (s.Sorted → Kinds ((Bind.function site declaration).run s).2
        ((Bind.function site declaration).run s).1) := by
  by_cases hname : declaration.name.isMissing = true
  · rw [function_run_of_missing site hname]
    exact ⟨.refl _ _, fun _ _ _ hmem => absurd hmem List.not_mem_nil⟩
  · obtain ⟨id, middle, hprepares, hdeclared⟩ := declareValue_prepares site site.scope
      declaration.name .function declaration.node.id s
    rw [function_run site hname hdeclared]
    exact ⟨hprepares.recorded_binds rfl nofun site _ _,
      fun hs => hprepares.recorded_kinds hs _ rfl site _ _⟩

/-- A type is handed on unless its name is taken by a symbol of another sort, which is reported. -/
theorem handOnType_run (site : Site) (name : Identifier) (sort : SymbolSort) (number : Nat)
    (made : Declaration) (s : Program) :
    (∃ other issues, (s.scope site.scope).get? (.type name.text) = some other ∧
      ¬(s.symbol other).sort.merges sort = true ∧
        (handOnType site name sort number made).run s = ([], { s with issues })) ∨
      ∃ id middle, Prepares s site.scope (.type name.text) sort id middle ∧
        (handOnType site name sort number made).run s =
          ([.declaration id made], recorded site id name number middle) := by
  have hrun := handOnType_eq site name sort number made s
  rcases declareType_prepares site name sort number s with
    ⟨other, issues, hfound, hmerges, hdeclared⟩ | ⟨id, middle, hprepares, hdeclared⟩
  · exact .inl ⟨other, issues, hfound, hmerges, by rw [hrun, hdeclared]⟩
  · exact .inr ⟨id, middle, hprepares, by rw [hrun, hdeclared]⟩

/-- Handing on a type opens no block, and hands it on under a symbol of its sort. -/
theorem handOnType_binds (site : Site) (name : Identifier) {sort : SymbolSort} (number : Nat)
    (made : Declaration) (hsort : sort.isType = true) (hmade : made.isOf sort = true)
    (s : Program) :
    s.Binds site.file ((handOnType site name sort number made).run s).2 [] ∧
      (s.Sorted → Kinds ((handOnType site name sort number made).run s).2
        ((handOnType site name sort number made).run s).1) := by
  rcases handOnType_run site name sort number made s with ⟨_, issues, -, -, hrun⟩ |
    ⟨id, middle, hprepares, hrun⟩
  · rw [hrun]
    exact ⟨.issues site.file s issues, fun _ => nofun⟩
  · rw [hrun]
    exact ⟨hprepares.recorded_binds hsort (Declaration.ne_method hmade) site _ _,
      fun hs => hprepares.recorded_kinds hs made hmade site _ _⟩

/-- A scope that is opened is empty, and the others stay. -/
theorem addScope_tables (file : FileId) (enclosing : List ScopeId) (span : Span) (s : Program)
    (scope : ScopeId) :
    let after := ((Compile.addScope file enclosing span).run s).2
    (after.scope scope).values = (s.scope scope).values ∧
      (after.scope scope).types = (s.scope scope).types ∧
      (after.scope scope).assignments = (s.scope scope).assignments := by
  intro after
  have hscopes : after.scopes = s.scopes.push ⟨enclosing, span, .empty, .empty, []⟩ := rfl
  unfold Program.scope
  rw [hscopes, Array.getElem?_push]
  split
  · -- nothing was read there before
    rename_i heq
    rw [heq, Array.getElem?_eq_none (Nat.le_refl _)]
    exact ⟨rfl, rfl, rfl⟩
  · exact ⟨rfl, rfl, rfl⟩

/-- Opening a scope changes where no name leads. -/
theorem addScope_get? (file : FileId) (enclosing : List ScopeId) (span : Span) (s : Program)
    (scope : ScopeId) (key : Key) :
    (((Compile.addScope file enclosing span).run s).2.scope scope).get? key =
      (s.scope scope).get? key := by
  obtain ⟨hvalues, htypes, -⟩ := addScope_tables file enclosing span s scope
  cases key with
  | value name => exact congrArg (·.get? name) hvalues
  | type name => exact congrArg (·.get? name) htypes

/-- Opening a scope is opening one block. -/
theorem addScope_binds (file : FileId) (enclosing : List ScopeId) (span : Span) (s : Program) :
    s.Binds file ((Compile.addScope file enclosing span).run s).2
      [⟨⟨s.scopes.size⟩, enclosing, span⟩] := by
  let opened : Scope := ⟨enclosing, span, .empty, .empty, []⟩
  let after := ((Compile.addScope file enclosing span).run s).2
  have hscopes : after.scopes = s.scopes.push opened := rfl
  have htables := addScope_tables file enclosing span s
  have hkeys := addScope_get? file enclosing span s
  have hsymbols : Continues Symbol.Grows s.symbols after.symbols := .refl Symbol.Grows.refl _
  refine ⟨.refl, hsymbols, hscopes ▸ .push Scope.Grows.refl _ _, fun hs => ?_, ?_, ?_, ?_,
    fun scope => (htables scope).2.2, Array.size_modify, ?_, fun hs => hs.same rfl rfl⟩
  · exact hs.of_scopes hsymbols hkeys fun scope => congrArg _ (htables scope).1
  · intro scope key id hkey
    rw [hkeys]
    exact hkey
  · exact Array.size_push _
  · refine List.forall_mem_singleton.mpr ⟨opened, ?_, rfl, rfl⟩
    exact Array.getElem?_push_size
  · have hfile : after.file? file = (s.file? file).map fun info =>
        { info with scopes := info.scopes ++ [⟨s.scopes.size⟩] } := by
      show (s.files.modify file.index _)[file.index]? = _
      rw [Array.getElem?_modify, if_pos rfl]
      rfl
    show (after.file? file).map _ = _
    rw [hfile, Option.map_map]
    rfl

end Bind

mutual

/-- The scopes that the blocks of a statement open when it is bound inside of scopes and the next
scope has a given number, in order. -/
def Statement.blocks (enclosing : List ScopeId) (next : Nat) : Statement → List BlockScope
  | .block node body =>
    ⟨⟨next⟩, enclosing, node.span⟩ :: blocksOf (⟨next⟩ :: enclosing) (next + 1) body
  | _ => []

/-- The scopes that the blocks of statements open, in order. -/
def blocksOf (enclosing : List ScopeId) (next : Nat) : List Statement → List BlockScope
  | [] => []
  | first :: rest => first.blocks enclosing next ++
      blocksOf enclosing (next + (first.blocks enclosing next).length) rest

end

namespace Bind

mutual

/-- A statement opens the scopes of its blocks, and hands each declaration on under a symbol of its
sort. -/
theorem statement_binds (site : Site) (statement : Statement) (s : Program) :
    s.Binds site.file ((Bind.statement site statement).run s).2
        (statement.blocks (site.scope :: site.enclosing) s.scopes.size) ∧
      (s.Sorted → Kinds ((Bind.statement site statement).run s).2
        ((Bind.statement site statement).run s).1) := by
  cases statement with
  | variableList list => exact variableList_binds site list.form list.declarations s
  | function declaration => exact function_binds site declaration s
  | interface declaration =>
    exact handOnType_binds site declaration.name declaration.node.id
      (.interface site.scope declaration.members) rfl rfl s
  | typeAlias declaration =>
    exact handOnType_binds site declaration.name declaration.node.id
      (.typeAlias site.scope declaration.name.node.span declaration.type) rfl rfl s
  | expression node value =>
    refine ⟨.refl _ _, fun _ id made hmem => ?_⟩
    change Bound.declaration id made ∈ assignment site node value at hmem
    unfold assignment at hmem
    split at hmem
    · cases List.mem_singleton.mp hmem
    · cases hmem
  | empty node => exact ⟨.refl _ _, fun _ => nofun⟩
  | block node body =>
    have hopened := addScope_binds site.file (site.scope :: site.enclosing) node.span s
    obtain ⟨hbody, hkinds⟩ := statements_binds
      { site with scope := ⟨s.scopes.size⟩, enclosing := site.scope :: site.enclosing } body
      ((Compile.addScope site.file (site.scope :: site.enclosing) node.span).run s).2
    rw [hopened.size] at hbody
    exact ⟨hopened.trans hbody, fun hs => hkinds (hopened.sorted hs)⟩

/-- What binding the statements of a file does. -/
theorem statements_binds (site : Site) (list : List Statement) (s : Program) :
    s.Binds site.file ((statements site list).run s).2
        (blocksOf (site.scope :: site.enclosing) s.scopes.size list) ∧
      (s.Sorted → Kinds ((statements site list).run s).2 ((statements site list).run s).1) := by
  cases list with
  | nil => exact ⟨.refl _ _, fun _ => nofun⟩
  | cons first rest =>
    obtain ⟨hfirst, hkinds⟩ := statement_binds site first s
    obtain ⟨hrest, hkinds'⟩ := statements_binds site rest ((Bind.statement site first).run s).2
    rw [hfirst.size] at hrest
    refine ⟨hfirst.trans hrest, fun hs => ?_⟩
    exact ((hkinds hs).mono hrest.symbols).append (hkinds' (hfirst.sorted hs))

end

end Bind

end ExpressionTyping
