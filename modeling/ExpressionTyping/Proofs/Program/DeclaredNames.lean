import ExpressionTyping.Proofs.Program.Handing

/-!
# Which declaration a name leads to

A file declares names, each in a scope and in one of two meanings; `SourceFile.declaredNames` lists
them in order, before anything is bound. The first declaration of a name in a scope decides what the
name leads to: a later one adds to its symbol if both are of one sort whose declarations add to each
other, and is reported otherwise (`repeated`).

`Program.Accounts` says of a program what it knows when the names of such a list have been declared:
what was reported, and for each name of a scope the symbol and where that is declared
(`Program.Knows`). It is kept by the declaration of one more name (`Accounts.declares`) and by the
scope that a block opens (`Accounts.opens`), so it holds when the statements of a file are bound
(`Bind.statements_accounts`).
-/

set_option autoImplicit false

namespace ExpressionTyping

/-! ## The names that a file declares -/

/-- The declaration of a name. -/
structure DeclaredName where
  /-- The scope the name is declared in. -/
  target : ScopeId
  /-- What it is declared as. -/
  sort : SymbolSort
  /-- The name. -/
  name : Identifier
  /-- The number of the declaration. -/
  number : Nat

namespace DeclaredName

/-- The name in the meaning it is declared in. -/
def key (declared : DeclaredName) : Key :=
  if declared.sort.isType then .type declared.name.text else .value declared.name.text

/-- Whether a name is declared in a scope. -/
def declares (scope : ScopeId) (key : Key) (declared : DeclaredName) : Bool :=
  declared.target = scope ∧ declared.key = key

/-- Whether a declaration is not the first of its name, and the first one is not of a sort that it
adds to. -/
def isRepeated (earlier : List DeclaredName) (declared : DeclaredName) : Bool :=
  match earlier.find? (declares declared.target declared.key) with
  | some first => !first.sort.merges declared.sort
  | none => false

/-- The place of a declaration in a file. -/
def location (file : FileId) (declared : DeclaredName) : Location :=
  ⟨file, declared.name.node.span.start⟩

/-- The name of a declared name is its text. -/
theorem key_name (declared : DeclaredName) : declared.key.name = declared.name.text := by
  unfold key
  split <;> rfl

/-- A declared name is one of a type when its sort is. -/
theorem key_isType (declared : DeclaredName) : declared.key.isType = declared.sort.isType := by
  unfold key
  cases declared.sort.isType <;> rfl

end DeclaredName

/-- The declarations after earlier ones whose names are taken, in order. -/
def repeatedAfter (earlier : List DeclaredName) : List DeclaredName → List DeclaredName
  | [] => []
  | declared :: rest =>
    (if declared.isRepeated earlier then [declared] else []) ++
      repeatedAfter (earlier ++ [declared]) rest

/-- What a visit declares in a scope and a file; a value without a name declares nothing. Variables
declared by `var` belong to the file. -/
def Visit.declaredName? (site : Site) : Visit → Option DeclaredName
  | .variableDecl statement declaration =>
    if declaration.name.isMissing then none
    else some ⟨if statement.form = .hoisted then site.fileScope else site.scope,
      statement.form.sort, declaration.name, declaration.node.id⟩
  | .function declaration =>
    if declaration.name.isMissing then none
    else some ⟨site.scope, .function, declaration.name, declaration.node.id⟩
  | .interface declaration => some ⟨site.scope, .interface, declaration.name, declaration.node.id⟩
  | .typeAlias declaration => some ⟨site.scope, .typeAlias, declaration.name, declaration.node.id⟩
  | .expression _ _ => none

/-- No name is declared as a method. -/
theorem Visit.declaredName?_ne_method {site : Site} {visit : Visit} {declared : DeclaredName}
    (h : visit.declaredName? site = some declared) : declared.sort ≠ .method := by
  cases visit with
  | variableDecl statement declaration =>
    obtain ⟨-, hsome⟩ := Option.ite_none_left_eq_some.mp h
    cases hsome
    cases statement.form <;> simp [VariableForm.sort]
  | function declaration =>
    obtain ⟨-, hsome⟩ := Option.ite_none_left_eq_some.mp h
    cases hsome
    nofun
  | interface | typeAlias =>
    cases h
    nofun
  | expression => cases h

mutual

/-- The names that a statement declares when it stands in a scope and the next scope has a given
number. -/
def Statement.declaredNames (site : Site) (next : Nat) : Statement → List DeclaredName
  | .variableList statement =>
    (statement.declarations.map (.variableDecl statement)).filterMap (Visit.declaredName? site)
  | .function declaration => [.function declaration].filterMap (Visit.declaredName? site)
  | .interface declaration => [.interface declaration].filterMap (Visit.declaredName? site)
  | .typeAlias declaration => [.typeAlias declaration].filterMap (Visit.declaredName? site)
  | .block _ body => declaredNamesOf (site.inside ⟨next⟩) (next + 1) body
  | .expression _ _ | .empty _ => []

/-- The names that statements declare, in order. -/
def declaredNamesOf (site : Site) (next : Nat) : List Statement → List DeclaredName
  | [] => []
  | first :: rest =>
    first.declaredNames site next ++
      declaredNamesOf site
        (next + (first.blocks (site.scope :: site.enclosing) next).length) rest

end

/-- The names that a file declares in a program, whose next file and next scope it is. -/
def Program.declaredNames (program : Program) (file : SourceFile) : List DeclaredName :=
  declaredNamesOf ⟨⟨program.files.size⟩, ⟨program.scopes.size⟩, ⟨program.scopes.size⟩, []⟩
    (program.scopes.size + 1) file.statements

/-- The declarations of a file whose names are taken. -/
def Program.repeatedNames (program : Program) (file : SourceFile) : List DeclaredName :=
  repeatedAfter [] (program.declaredNames file)

/-- The repeated ones among names in a row are those of the first, and those of the others after the
first. -/
theorem repeatedAfter_append (earlier names others : List DeclaredName) :
    repeatedAfter earlier (names ++ others) =
      repeatedAfter earlier names ++ repeatedAfter (earlier ++ names) others := by
  induction names generalizing earlier with
  | nil => simp [repeatedAfter]
  | cons declared rest ih => simp [repeatedAfter, ih, List.append_assoc]

/-- A declaration has the number of its visit. -/
theorem Visit.number?_of_declaredName? {site : Site} {visit : Visit} {declared : DeclaredName}
    (h : visit.declaredName? site = some declared) : visit.number? = some declared.number := by
  cases visit with
  | variableDecl | function =>
    simp only [declaredName?] at h
    split at h
    · cases h
    · cases h
      rfl
  | interface | typeAlias =>
    cases h
    rfl
  | expression => cases h

/-- Names are declared at most once for each visit with a number, in order. -/
theorem Visit.numbers_sublist (site : Site) (visits : List Visit) :
    ((visits.filterMap (Visit.declaredName? site)).map DeclaredName.number).Sublist
      (visits.filterMap Visit.number?) := by
  induction visits with
  | nil => exact List.Sublist.refl _
  | cons visit rest ih =>
    cases hdeclared : visit.declaredName? site with
    | none =>
      rw [List.filterMap_cons_none hdeclared, List.filterMap_cons]
      split
      · exact ih
      · exact ih.cons _
    | some declared =>
      rw [List.filterMap_cons_some hdeclared,
        List.filterMap_cons_some (number?_of_declaredName? hdeclared), List.map_cons]
      exact ih.cons_cons _

mutual

/-- Declarations have the numbers of what is met when a file is visited. -/
theorem Statement.declaredNames_numbers (site : Site) (next : Nat) : (statement : Statement) →
    ((statement.declaredNames site next).map DeclaredName.number).Sublist
      (statement.visits.filterMap Visit.number?)
  | .variableList statement =>
    Visit.numbers_sublist site (statement.declarations.map (.variableDecl statement))
  | .function declaration => Visit.numbers_sublist site [.function declaration]
  | .interface declaration => Visit.numbers_sublist site [.interface declaration]
  | .typeAlias declaration => Visit.numbers_sublist site [.typeAlias declaration]
  | .block _ body => declaredNamesOf_numbers (site.inside ⟨next⟩) (next + 1) body
  | .expression _ _ => List.nil_sublist _
  | .empty _ => List.nil_sublist _

/-- The names that statements declare have the numbers of what is met in them, in order. -/
theorem declaredNamesOf_numbers (site : Site) (next : Nat) : (statements : List Statement) →
    ((declaredNamesOf site next statements).map DeclaredName.number).Sublist
      ((visitAll statements).filterMap Visit.number?)
  | [] => List.nil_sublist _
  | first :: rest => by
    rw [declaredNamesOf, visitAll, List.map_append, List.filterMap_append]
    exact (Statement.declaredNames_numbers site next first).append
      (declaredNamesOf_numbers site _ rest)

end

/-! ## What a program knows of names -/

/-- What a program knows of a name whose declarations in a scope are given. If there are any, the
name leads to the symbol of the first one, which is declared where that is and where those are that
add to it. -/
def Program.Knows (program : Program) (file : FileId) (scope : ScopeId) (key : Key) :
    List DeclaredName → Prop
  | [] => (program.scope scope).get? key = none
  | first :: later => ∃ id symbol, (program.scope scope).get? key = some id ∧
      program.symbol? id = some symbol ∧ symbol.name = key.name ∧ symbol.sort = first.sort ∧
      symbol.declarations =
        (first :: later.filter fun other => first.sort.merges other.sort).map
          (DeclaredName.location file) ∧
      program.symbolOf? file first.number = some id

/-- A program accounts for the names that were declared in a file since another one: those that were
taken are reported, and names in new scopes lead where they should. -/
structure Program.Accounts (base : Program) (file : FileId) (done : List DeclaredName)
    (s : Program) : Prop where
  sorted : s.Sorted
  hasFile : s.HasFile file
  fileName : s.fileName file = base.fileName file
  issues : s.issues =
    base.issues ++ (repeatedAfter [] done).map (·.name.taken (base.fileName file))
  size : base.scopes.size ≤ s.scopes.size
  knows : ∀ (scope : ScopeId) (key : Key), base.scopes.size ≤ scope.index →
    s.Knows file scope key (done.filter (DeclaredName.declares scope key))

namespace Program

variable {base s s' : Program} {file : FileId} {scope : ScopeId} {key : Key}
  {names done : List DeclaredName} {declared : DeclaredName}

/-- What is known of a name stays, if neither where it leads nor the symbol there changes. -/
theorem Knows.keep (h : s.Knows file scope key names)
    (hget : (s'.scope scope).get? key = (s.scope scope).get? key)
    (hsymbol : ∀ id, (s.scope scope).get? key = some id → s'.symbol? id = s.symbol? id)
    (hnumbers : ∀ declared ∈ names,
      s'.symbolOf? file declared.number = s.symbolOf? file declared.number) :
    s'.Knows file scope key names := by
  cases names with
  | nil => exact hget.trans h
  | cons first later =>
    obtain ⟨id, symbol, hid, hfound, hname, hsort, hdeclarations, hnumber⟩ := h
    exact ⟨id, symbol, hget.trans hid, (hsymbol id hid).trans hfound, hname, hsort, hdeclarations,
      (hnumbers first List.mem_cons_self).trans hnumber⟩

/-- A name that leads to a symbol is declared once more, and the declaration counts if it adds to the
symbol. -/
theorem Knows.again (h : s.Knows file scope key names) {id : SymbolId}
    (hfound : (s.scope scope).get? key = some id) (hget : (s'.scope scope).get? key = some id)
    (declared : DeclaredName)
    (hsymbol : s'.symbol? id = some { s.symbol id with
      declarations := (s.symbol id).declarations ++
        if (s.symbol id).sort.merges declared.sort then [declared.location file] else [] })
    (hnumbers : ∀ other ∈ names,
      s'.symbolOf? file other.number = s.symbolOf? file other.number) :
    s'.Knows file scope key (names ++ [declared]) := by
  cases names with
  | nil => cases hfound.symm.trans h
  | cons first later =>
    obtain ⟨id, symbol, hid, hsome, hname, hsort, hdeclarations, hfirst⟩ := h
    cases hfound.symm.trans hid
    obtain ⟨-, rfl⟩ := HasSymbol.of_symbol? hsome
    rw [List.cons_append]
    refine ⟨id, _, hget, hsymbol, hname, hsort, ?_, ?_⟩
    · show (s.symbol id).declarations ++ _ = _
      rw [hdeclarations, hsort, List.filter_append, ← List.cons_append, List.map_append,
        List.filter_singleton]
      cases first.sort.merges declared.sort <;> rfl
    · exact (hnumbers first List.mem_cons_self).trans hfirst

/-- A declaration is repeated if its name leads to a symbol of a sort that it does not add to. -/
theorem Knows.isRepeated_eq
    (h : s.Knows file declared.target declared.key
      (done.filter (DeclaredName.declares declared.target declared.key))) :
    declared.isRepeated done =
      match (s.scope declared.target).get? declared.key with
      | some id => !(s.symbol id).sort.merges declared.sort
      | none => false := by
  rw [DeclaredName.isRepeated, ← List.head?_filter]
  cases hnames : done.filter (DeclaredName.declares declared.target declared.key) with
  | nil =>
    rw [hnames] at h
    rw [show (s.scope declared.target).get? declared.key = none from h]
    rfl
  | cons first later =>
    rw [hnames] at h
    obtain ⟨id, symbol, hid, hfound, -, hsort, -⟩ := h
    obtain ⟨-, rfl⟩ := HasSymbol.of_symbol? hfound
    rw [hid]
    simp [hsort]

end Program

namespace Bind

open Program

variable {base s s' : Program} {site : Site} {file : FileId} {done : List DeclaredName}
  {declared : DeclaredName}

/-- Recording a declaration adds its place to the symbol. -/
theorem recorded_symbol? (site : Site) (id : SymbolId) (name : Identifier) (number : Nat)
    (s : Program) : (recorded site id name number s).symbol? id = (s.symbol? id).map fun symbol =>
      { symbol with
        declarations := symbol.declarations ++ [⟨site.file, name.node.span.start⟩] } := by
  show (s.symbols.modify id.index _)[id.index]? = _
  rw [Array.getElem?_modify, if_pos rfl]
  rfl

/-- Recording a declaration leaves the other symbols. -/
theorem recorded_symbol?_of_ne (site : Site) {id other : SymbolId} (hne : other ≠ id)
    (name : Identifier) (number : Nat) (s : Program) :
    (recorded site id name number s).symbol? other = s.symbol? other := by
  show (s.symbols.modify id.index _)[other.index]? = s.symbols[other.index]?
  rw [Array.getElem?_modify, if_neg]
  intro hindex
  exact hne (congrArg SymbolId.mk hindex.symm)

/-- After a declaration is recorded, its number leads to its symbol, and the others lead where they
did. -/
theorem recorded_symbolOf? (site : Site) (id : SymbolId) (name : Identifier) (number other : Nat)
    {s : Program} (hfile : s.HasFile site.file) :
    (recorded site id name number s).symbolOf? site.file other =
      if other = number then some id else s.symbolOf? site.file other := by
  obtain ⟨info, hinfo⟩ := hfile.file?
  unfold Program.symbolOf?
  have hafter : (recorded site id name number s).files[site.file.index]? =
      some { info with declarations := (number, id) :: info.declarations } := by
    show (s.files.modify site.file.index _)[site.file.index]? = _
    rw [Array.getElem?_modify, if_pos rfl, show s.files[site.file.index]? = some info from hinfo]
    rfl
  rw [hafter, show s.files[site.file.index]? = some info from hinfo, Option.bind_some,
    Option.bind_some, List.lookup_cons]
  by_cases hnumber : other = number
  · simp [hnumber]
  · rw [beq_false_of_ne hnumber, if_neg hnumber]

/-- What the declaration of a name does to a program. -/
inductive DeclaresName (site : Site) (declared : DeclaredName) (s : Program) : Program → Prop where
  /-- It adds to the symbol that the name has. -/
  | merged {id : SymbolId} (hfound : (s.scope declared.target).get? declared.key = some id)
      (hmerges : (s.symbol id).sort.merges declared.sort = true) :
      DeclaresName site declared s (recorded site id declared.name declared.number s)
  /-- The name is taken, and the declaration gets a symbol of its own. -/
  | hidden {other : SymbolId} (hfound : (s.scope declared.target).get? declared.key = some other)
      (hmerges : ¬(s.symbol other).sort.merges declared.sort = true)
      (hvalue : declared.sort.isType = false) :
      DeclaresName site declared s (recorded site ⟨s.symbols.size⟩ declared.name declared.number
        { s with
          symbols := s.symbols.push ⟨declared.name.text, declared.sort, [], .any⟩
          issues := s.issues ++ [declared.name.taken (s.fileName site.file)] })
  /-- The name is taken, and the declaration gets no symbol. -/
  | refused {other : SymbolId} (hfound : (s.scope declared.target).get? declared.key = some other)
      (hmerges : ¬(s.symbol other).sort.merges declared.sort = true) :
      DeclaresName site declared s
        { s with issues := s.issues ++ [declared.name.taken (s.fileName site.file)] }
  /-- The name is new. -/
  | added (hmissing : (s.scope declared.target).get? declared.key = none) {types : TypeTable}
      (type : TypeId) (hstarts : StartsWith s.types declared.key declared.sort type types) :
      DeclaresName site declared s (recorded site ⟨s.symbols.size⟩ declared.name declared.number
        { s with
          types
          symbols := s.symbols.push ⟨declared.name.text, declared.sort, [], type⟩
          scopes := s.scopes.modify declared.target.index
            (·.insert declared.key ⟨s.symbols.size⟩) })

/-- Declaring a value is the declaration of its name. -/
theorem declareValue_declaresName (site : Site) (hvalue : declared.sort.isType = false) (s : Program) :
    DeclaresName site declared s
      ((declareValue site declared.target declared.name declared.sort declared.number).run s).2 := by
  have hkey : declared.key = .value declared.name.text := by rw [DeclaredName.key, hvalue]; rfl
  cases hfound : (s.scope declared.target).values.get? declared.name.text with
  | some existing =>
    have hget : (s.scope declared.target).get? declared.key = some existing := hkey ▸ hfound
    by_cases hmerges : (s.symbol existing).sort.merges declared.sort = true
    · rw [declareValue_run_of_merges site hfound hmerges]
      exact .merged hget hmerges
    · rw [declareValue_run_of_taken site hfound hmerges]
      exact .hidden hget hmerges hvalue
  | none =>
    have hget : (s.scope declared.target).get? declared.key = none := hkey ▸ hfound
    have hstarts : StartsWith s.types declared.key declared.sort .any s.types := by
      rw [hkey]
      exact .value declared.name.text declared.sort
    have hadded : DeclaresName site declared s _ := .added hget .any hstarts
    rw [hkey] at hadded
    rw [declareValue_run_of_new site hfound]
    exact hadded

/-- Declaring a type is the declaration of its name. -/
theorem declareType_declaresName (site : Site) (htype : declared.sort.isType = true)
    (htarget : declared.target = site.scope) (s : Program) :
    DeclaresName site declared s
      ((declareType site declared.name declared.sort declared.number).run s).2 := by
  have hkey : declared.key = .type declared.name.text := by rw [DeclaredName.key, htype]; rfl
  cases hfound : (s.scope site.scope).types.get? declared.name.text with
  | some existing =>
    have hget : (s.scope declared.target).get? declared.key = some existing := by
      rw [hkey, htarget]
      exact hfound
    by_cases hmerges : (s.symbol existing).sort.merges declared.sort = true
    · rw [declareType_run_of_merges hfound hmerges]
      exact .merged hget hmerges
    · rw [declareType_run_of_taken hfound hmerges]
      exact .refused hget hmerges
  | none =>
    have hget : (s.scope declared.target).get? declared.key = none := by
      rw [hkey, htarget]
      exact hfound
    have hstarts := StartsWith.startType declared.name.text declared.sort s.types
    rw [← hkey] at hstarts
    have hadded : DeclaresName site declared s _ := .added hget _ hstarts
    rw [hkey, htarget] at hadded
    rw [declareType_run_of_new hfound]
    exact hadded

/-- A new symbol that is noted down is no other. -/
theorem recorded_pushed_symbol? {middle : Program} {symbol : Symbol}
    (hsymbols : middle.symbols = s.symbols.push symbol) (site : Site) (name : Identifier)
    (number : Nat) {id : SymbolId} (hid : s.HasSymbol id) :
    (recorded site ⟨s.symbols.size⟩ name number middle).symbol? id = s.symbol? id := by
  have hne : id ≠ ⟨s.symbols.size⟩ := by
    rintro rfl
    exact Nat.lt_irrefl _ hid
  rw [recorded_symbol?_of_ne site hne]
  show middle.symbols[id.index]? = s.symbols[id.index]?
  rw [hsymbols, Array.getElem?_push, if_neg (Nat.ne_of_lt hid)]

/-- Declaring a name opens no block. -/
theorem DeclaresName.binds (h : DeclaresName site declared s s') (hmethod : declared.sort ≠ .method) :
    s.Binds site.file s' [] := by
  have hsort := declared.key_isType.symm
  cases h with
  | merged hfound hmerges =>
    exact (Prepares.merged hfound hmerges).recorded_binds hsort hmethod site _ _
  | hidden hfound hmerges hvalue =>
    have hprepares := Prepares.taken hfound hmerges
      (s.issues ++ [declared.name.taken (s.fileName site.file)])
      (declared.key_isType.trans hvalue)
    rw [declared.key_name] at hprepares
    exact hprepares.recorded_binds hsort hmethod site _ _
  | refused => exact .issues site.file s _
  | added hmissing type hstarts =>
    have hprepares : Prepares s declared.target declared.key declared.sort _ _ :=
      .added hmissing type hstarts
    rw [declared.key_name] at hprepares
    exact hprepares.recorded_binds hsort hmethod site _ _

/-- Declaring a name keeps the names of files. -/
theorem DeclaresName.fileName (h : DeclaresName site declared s s') (file : FileId) :
    s'.fileName file = s.fileName file := by
  cases h with
  | merged | hidden | added => exact recorded_fileName site _ _ _ _ file
  | refused => rfl

/-- A declaration notes down no other number. -/
theorem DeclaresName.symbolOf? (h : DeclaresName site declared s s') (hfile : s.HasFile site.file)
    {number : Nat} (hnumber : number ≠ declared.number) :
    s'.symbolOf? site.file number = s.symbolOf? site.file number := by
  cases h with
  | merged => rw [recorded_symbolOf? site _ _ _ _ hfile, if_neg hnumber]
  | hidden | added =>
    refine (recorded_symbolOf? site _ _ _ _ (by exact hfile)).trans ?_
    rw [if_neg hnumber]
    rfl
  | refused => rfl

/-- Other names lead where they did, to symbols that are as they were. -/
theorem DeclaresName.other (h : DeclaresName site declared s s') (hs : s.Sorted) {scope : ScopeId}
    {key : Key} (hne : ¬(scope = declared.target ∧ key = declared.key)) :
    (s'.scope scope).get? key = (s.scope scope).get? key ∧
      ∀ id, (s.scope scope).get? key = some id → s'.symbol? id = s.symbol? id := by
  have hhas {id : SymbolId} (hid : (s.scope scope).get? key = some id) : s.HasSymbol id := by
    obtain ⟨symbol, hsymbol, -⟩ := hs.named hid
    exact (HasSymbol.of_symbol? hsymbol).1
  cases h with
  | merged hfound hmerges =>
    refine ⟨rfl, fun id hid => recorded_symbol?_of_ne site ?_ _ _ _⟩
    rintro rfl
    exact hne ⟨hs.apart hid hfound, hs.key_eq hid hfound⟩
  | hidden => exact ⟨rfl, fun id hid => recorded_pushed_symbol? rfl site _ _ (hhas hid)⟩
  | refused => exact ⟨rfl, fun _ _ => rfl⟩
  | added hmissing type hstarts =>
    refine ⟨?_, fun id hid => recorded_pushed_symbol? rfl site _ _ (hhas hid)⟩
    have hprepares : Prepares s declared.target declared.key declared.sort _ _ :=
      .added hmissing type hstarts
    rcases hprepares.scope_cases scope with heq | ⟨rfl, -, -, -, heq⟩
    · exact congrArg (Scope.get? · key) heq
    · refine (congrArg (Scope.get? · key) heq).trans ?_
      rw [Scope.get?_insert, if_neg fun h => hne ⟨rfl, h⟩]

/-- What is reported is that the name is taken, if it leads to a symbol that the declaration does not
add to. -/
theorem DeclaresName.issues (h : DeclaresName site declared s s') :
    s'.issues = s.issues ++
      if (match (s.scope declared.target).get? declared.key with
        | some id => !(s.symbol id).sort.merges declared.sort
        | none => false) = true then [declared.name.taken (s.fileName site.file)] else [] := by
  cases h with
  | merged hfound hmerges =>
    rw [hfound]
    simp only [hmerges, Bool.not_true, Bool.false_eq_true, if_false, List.append_nil]
    rfl
  | hidden hfound hmerges =>
    rw [hfound]
    simp only [hmerges, Bool.not_false, if_true]
    rfl
  | refused hfound hmerges =>
    rw [hfound]
    simp only [hmerges, Bool.not_false, if_true]
  | added hmissing =>
    rw [hmissing]
    simp only [Bool.false_eq_true, if_false, List.append_nil]
    rfl

/-- The name itself leads to the symbol of its first declaration, which is declared once more if the
declaration adds to it. -/
theorem DeclaresName.own (h : DeclaresName site declared s s') (hs : s.Sorted)
    (hfile : s.HasFile site.file) (htarget : s.HasScope declared.target)
    {names : List DeclaredName}
    (hknows : s.Knows site.file declared.target declared.key names)
    (hnumber : ∀ other ∈ names, other.number ≠ declared.number) :
    s'.Knows site.file declared.target declared.key (names ++ [declared]) := by
  have hnumbers : ∀ other ∈ names,
      s'.symbolOf? site.file other.number = s.symbolOf? site.file other.number :=
    fun other hmem => h.symbolOf? hfile (hnumber other hmem)
  have hhas {id : SymbolId} (hfound : (s.scope declared.target).get? declared.key = some id) :
      s.HasSymbol id := by
    obtain ⟨symbol, hsymbol, -⟩ := hs.named hfound
    exact (HasSymbol.of_symbol? hsymbol).1
  -- if the name is taken, the declaration does not count
  have htaken {other : SymbolId}
      (hfound : (s.scope declared.target).get? declared.key = some other)
      (hmerges : ¬(s.symbol other).sort.merges declared.sort = true)
      (hscopes : s'.scopes = s.scopes) (hsymbol : s'.symbol? other = s.symbol? other) :
      s'.Knows site.file declared.target declared.key (names ++ [declared]) := by
    refine hknows.again hfound ?_ declared ?_ hnumbers
    · rw [scope_eq_of_scopes hscopes, hfound]
    · rw [hsymbol, (hhas hfound).symbol?, if_neg hmerges, List.append_nil]
  cases h with
  | merged hfound hmerges =>
    refine hknows.again hfound ?_ declared ?_ hnumbers
    · exact hfound
    · rw [recorded_symbol?, (hhas hfound).symbol?, if_pos hmerges]
      rfl
  | hidden hfound hmerges =>
    exact htaken hfound hmerges rfl (recorded_pushed_symbol? rfl site _ _ (hhas hfound))
  | refused hfound hmerges => exact htaken hfound hmerges rfl rfl
  | added hmissing type hstarts =>
    cases names with
    | cons first later =>
      obtain ⟨id, symbol, hid, -⟩ := hknows
      cases hmissing.symm.trans hid
    | nil =>
      have hprepares : Prepares s declared.target declared.key declared.sort _ _ :=
        .added hmissing type hstarts
      have hleads := (hprepares.leads htarget).resolve_right fun ⟨_, _, hfound, _⟩ => by
        cases hmissing.symm.trans hfound
      refine ⟨⟨s.symbols.size⟩, _, hleads, (recorded_symbol? site _ _ _ _).trans
        (congrArg _ Array.getElem?_push_size), declared.key_name.symm, rfl, rfl, ?_⟩
      exact (recorded_symbolOf? site _ _ _ _ (by exact hfile)).trans (if_pos rfl)

end Bind

namespace Program.Accounts

variable {base s s' : Program} {site : Site} {file : FileId} {done : List DeclaredName}
  {declared : DeclaredName}

/-- What is known of names is kept when one more is declared. -/
theorem declares (haccounts : base.Accounts site.file done s)
    (h : Bind.DeclaresName site declared s s') (hmethod : declared.sort ≠ .method)
    (htarget : s.HasScope declared.target)
    (hnew : base.scopes.size ≤ declared.target.index)
    (hnumber : ∀ other ∈ done, other.number ≠ declared.number) :
    base.Accounts site.file (done ++ [declared]) s' where
  sorted := (h.binds hmethod).sorted haccounts.sorted
  hasFile := by
    show site.file.index < s'.files.size
    rw [(h.binds hmethod).files]
    exact haccounts.hasFile
  fileName := (h.fileName site.file).trans haccounts.fileName
  issues := by
    rw [h.issues, ← (haccounts.knows _ _ hnew).isRepeated_eq, haccounts.issues, haccounts.fileName,
      repeatedAfter_append, List.map_append, List.append_assoc]
    congr 2
    simp only [repeatedAfter, List.nil_append, List.append_nil]
    split <;> rfl
  size := Nat.le_trans haccounts.size (h.binds hmethod).size_le
  knows scope key hscope := by
    have hknows := haccounts.knows scope key hscope
    have hnumbers : ∀ other ∈ done.filter (DeclaredName.declares scope key),
        other.number ≠ declared.number := fun other hother =>
      hnumber other (List.mem_of_mem_filter hother)
    rw [List.filter_append]
    by_cases hown : scope = declared.target ∧ key = declared.key
    · obtain ⟨rfl, rfl⟩ := hown
      have hdeclares : declared.declares declared.target declared.key = true := by
        simp [DeclaredName.declares]
      rw [List.filter_singleton, hdeclares]
      exact h.own haccounts.sorted haccounts.hasFile htarget hknows hnumbers
    · have hdeclares : declared.declares scope key = false :=
        decide_eq_false fun h => hown ⟨h.1.symm, h.2.symm⟩
      rw [List.filter_singleton, hdeclares, cond_false, List.append_nil]
      obtain ⟨hget, hsymbol⟩ := h.other haccounts.sorted hown
      exact hknows.keep hget hsymbol fun other hother =>
        h.symbolOf? haccounts.hasFile (hnumbers other hother)

/-- What is known of names is kept when a block opens its scope. -/
theorem opens (haccounts : base.Accounts file done s) (enclosing : List ScopeId) (span : Span) :
    base.Accounts file done ((Compile.addScope file enclosing span).run s).2 := by
  have hbinds := Bind.addScope_binds file enclosing span s
  refine ⟨hbinds.sorted haccounts.sorted, ?_, ?_, haccounts.issues,
    Nat.le_trans haccounts.size hbinds.size_le, fun scope key hscope => ?_⟩
  · show file.index < Array.size _
    rw [hbinds.files]
    exact haccounts.hasFile
  · exact (Bind.addScope_fileName file enclosing span s file).trans haccounts.fileName
  · refine (haccounts.knows scope key hscope).keep (Bind.addScope_get? file enclosing span s scope key)
      (fun _ _ => rfl) fun declared _ => ?_
    unfold Program.symbolOf?
    show ((s.files.modify file.index _)[file.index]?).bind _ = _
    rw [Array.getElem?_modify, if_pos rfl]
    cases s.files[file.index]? <;> rfl

end Program.Accounts

/-! ## Statements -/

/-- The scopes of a place are in a program, and were not in an earlier one. -/
structure Site.OpenedSince (base s : Program) (site : Site) : Prop where
  scope : base.scopes.size ≤ site.scope.index ∧ s.HasScope site.scope
  fileScope : base.scopes.size ≤ site.fileScope.index ∧ s.HasScope site.fileScope

/-- The scopes of a place stay in the program while it grows. -/
theorem Site.OpenedSince.mono {base s s' : Program} {site : Site} (h : site.OpenedSince base s)
    (hsize : s.scopes.size ≤ s'.scopes.size) : site.OpenedSince base s' :=
  ⟨⟨h.scope.1, Nat.lt_of_lt_of_le h.scope.2 hsize⟩,
    ⟨h.fileScope.1, Nat.lt_of_lt_of_le h.fileScope.2 hsize⟩⟩

/-- What a visit declares is declared in a scope of the place. -/
theorem Site.OpenedSince.target {base s : Program} {site : Site} (h : site.OpenedSince base s)
    {visit : Visit} {declared : DeclaredName} (hdeclared : visit.declaredName? site = some declared) :
    base.scopes.size ≤ declared.target.index ∧ s.HasScope declared.target := by
  cases visit with
  | variableDecl statement declaration =>
    simp only [Visit.declaredName?] at hdeclared
    split at hdeclared
    · cases hdeclared
    · cases hdeclared
      dsimp only
      split
      · exact h.fileScope
      · exact h.scope
  | function =>
    simp only [Visit.declaredName?] at hdeclared
    split at hdeclared
    · cases hdeclared
    · cases hdeclared
      exact h.scope
  | interface | typeAlias =>
    cases hdeclared
    exact h.scope
  | expression => cases hdeclared

namespace Bind

open Program

variable {base s : Program} {site : Site} {done : List DeclaredName}

/-- The declarations met in some visits are numbered apart from each other and from earlier ones. -/
def NumbersApart (done names : List DeclaredName) : Prop :=
  ((done ++ names).map DeclaredName.number).Nodup

/-- The first of names numbered apart is numbered apart from the earlier ones. -/
theorem NumbersApart.head {declared : DeclaredName} {rest : List DeclaredName}
    (h : NumbersApart done (declared :: rest)) :
    ∀ other ∈ done, other.number ≠ declared.number := by
  intro other hother heq
  rw [NumbersApart, List.map_append, List.nodup_append] at h
  exact h.2.2 other.number (List.mem_map_of_mem hother) declared.number
    (List.mem_map_of_mem List.mem_cons_self) heq

/-- The first of two lists of names numbered apart is numbered apart from the earlier ones. -/
theorem NumbersApart.left {names others : List DeclaredName}
    (h : NumbersApart done (names ++ others)) : NumbersApart done names := by
  rw [NumbersApart, ← List.append_assoc, List.map_append] at h
  exact h.of_append_left

/-- The second of two lists of names numbered apart is numbered apart from the earlier ones and the
first. -/
theorem NumbersApart.right {names others : List DeclaredName}
    (h : NumbersApart done (names ++ others)) : NumbersApart (done ++ names) others := by
  rwa [NumbersApart, List.append_assoc]

/-- One visit that declares a name. -/
theorem visit_accounts {visit : Visit} {declared : DeclaredName} {s' : Program}
    (h : base.Accounts site.file done s) (hsite : site.OpenedSince base s)
    (hdeclared : visit.declaredName? site = some declared)
    (hnumbers : NumbersApart done ([visit].filterMap (Visit.declaredName? site)))
    (hdeclares : DeclaresName site declared s s') :
    base.Accounts site.file (done ++ [visit].filterMap (Visit.declaredName? site)) s' := by
  rw [List.filterMap_cons_some hdeclared, List.filterMap_nil] at hnumbers ⊢
  obtain ⟨hnew, htarget⟩ := hsite.target hdeclared
  exact h.declares hdeclares (Visit.declaredName?_ne_method hdeclared) htarget hnew hnumbers.head

/-- A variable declared by `var` belongs to the scope of the file, another one to its own scope. -/
theorem variableTarget_target (site : Site) (form : VariableForm) :
    (variableTarget site form).1 = if form = .hoisted then site.fileScope else site.scope := by
  cases form <;> rfl

/-- A list of variables is accounted for after it is bound. -/
theorem variableList_accounts (statement : VariableStatement) (list : List VariableDeclaration)
    (h : base.Accounts site.file done s) (hsite : site.OpenedSince base s)
    (hnumbers : NumbersApart done
      ((list.map (.variableDecl statement)).filterMap (Visit.declaredName? site))) :
    base.Accounts site.file
      (done ++ (list.map (.variableDecl statement)).filterMap (Visit.declaredName? site))
      ((variableList site statement.form list).run s).2 := by
  induction list generalizing s done with
  | nil =>
    rw [List.map_nil, List.filterMap_nil, List.append_nil]
    exact h
  | cons declaration rest ih =>
    rw [List.map_cons] at hnumbers ⊢
    by_cases hmissing : declaration.name.isMissing = true
    · have hnone : (Visit.variableDecl statement declaration).declaredName? site = none :=
        if_pos hmissing
      rw [List.filterMap_cons_none hnone] at hnumbers ⊢
      rw [variableList_run_of_missing site statement.form hmissing]
      exact ih h hsite hnumbers
    · let declared : DeclaredName := ⟨(variableTarget site statement.form).1,
        (variableTarget site statement.form).2, declaration.name, declaration.node.id⟩
      have hdeclared : (Visit.variableDecl statement declaration).declaredName? site =
          some declared := by
        rw [Visit.declaredName?, if_neg hmissing]
        simp only [declared, variableTarget_target, variableTarget_sort]
      have hvalue : declared.sort.isType = false := isType_variableTarget site statement.form
      have hdeclares := declareValue_declaresName site hvalue s
      rw [← List.singleton_append, List.filterMap_append] at hnumbers ⊢
      rw [variableList_cons_run site statement.form rest hmissing rfl, ← List.append_assoc]
      exact ih (visit_accounts h hsite hdeclared hnumbers.left hdeclares)
        (hsite.mono (hdeclares.binds (variableTarget_ne_method site statement.form)).size_le)
        hnumbers.right

/-- A function is accounted for after it is bound. -/
theorem function_accounts (declaration : FunctionDeclaration)
    (h : base.Accounts site.file done s) (hsite : site.OpenedSince base s)
    (hnumbers : NumbersApart done ([.function declaration].filterMap (Visit.declaredName? site))) :
    base.Accounts site.file
      (done ++ [.function declaration].filterMap (Visit.declaredName? site))
      ((Bind.function site declaration).run s).2 := by
  by_cases hmissing : declaration.name.isMissing = true
  · have hnone : (Visit.function declaration).declaredName? site = none := if_pos hmissing
    rw [List.filterMap_cons_none hnone, List.filterMap_nil, List.append_nil,
      function_run_of_missing site hmissing]
    exact h
  · have hdeclared : (Visit.function declaration).declaredName? site =
        some ⟨site.scope, .function, declaration.name, declaration.node.id⟩ := if_neg hmissing
    rw [function_run site hmissing rfl]
    exact visit_accounts h hsite hdeclared hnumbers (declareValue_declaresName site rfl s)

/-- An interface or an alias is accounted for after it is bound. -/
theorem handOnType_accounts (visit : Visit) (declared : DeclaredName)
    (h : base.Accounts site.file done s) (hsite : site.OpenedSince base s)
    (hdeclared : visit.declaredName? site = some declared) (htype : declared.sort.isType = true)
    (htarget : declared.target = site.scope)
    (hnumbers : NumbersApart done ([visit].filterMap (Visit.declaredName? site)))
    (made : Declaration) :
    base.Accounts site.file (done ++ [visit].filterMap (Visit.declaredName? site))
      ((handOnType site declared.name declared.sort declared.number made).run s).2 := by
  rw [handOnType_eq]
  exact visit_accounts h hsite hdeclared hnumbers (declareType_declaresName site htype htarget s)

mutual

/-- A statement is accounted for after it is bound, with everything in its blocks. -/
theorem statement_accounts (statement : Statement) (site : Site) {done : List DeclaredName}
    {s : Program} (h : base.Accounts site.file done s) (hsite : site.OpenedSince base s)
    (hnumbers : NumbersApart done (statement.declaredNames site s.scopes.size)) :
    base.Accounts site.file (done ++ statement.declaredNames site s.scopes.size)
      ((Bind.statement site statement).run s).2 := by
  cases statement with
  | variableList list => exact variableList_accounts list list.declarations h hsite hnumbers
  | function declaration => exact function_accounts declaration h hsite hnumbers
  | interface declaration =>
    exact handOnType_accounts (.interface declaration)
      ⟨site.scope, .interface, declaration.name, declaration.node.id⟩ h hsite rfl rfl rfl hnumbers _
  | typeAlias declaration =>
    exact handOnType_accounts (.typeAlias declaration)
      ⟨site.scope, .typeAlias, declaration.name, declaration.node.id⟩ h hsite rfl rfl rfl hnumbers _
  | expression node value =>
    rw [Statement.declaredNames, List.append_nil]
    exact h
  | empty node =>
    rw [Statement.declaredNames, List.append_nil]
    exact h
  | block node body =>
    have hopens := addScope_binds site.file (site.scope :: site.enclosing) node.span s
    have hopened : (site.inside ⟨s.scopes.size⟩).OpenedSince base
        ((Compile.addScope site.file (site.scope :: site.enclosing) node.span).run s).2 := by
      refine ⟨⟨h.size, ?_⟩, (hsite.mono hopens.size_le).fileScope⟩
      show s.scopes.size < Array.size _
      rw [hopens.size]
      exact Nat.lt_succ_self _
    have hbody := statements_accounts body (site.inside ⟨s.scopes.size⟩)
      (h.opens (site.scope :: site.enclosing) node.span) hopened
    rw [hopens.size] at hbody
    exact hbody hnumbers

/-- What is known of names is kept when statements are bound. -/
theorem statements_accounts (list : List Statement) (site : Site) {done : List DeclaredName}
    {s : Program} (h : base.Accounts site.file done s) (hsite : site.OpenedSince base s)
    (hnumbers : NumbersApart done (declaredNamesOf site s.scopes.size list)) :
    base.Accounts site.file (done ++ declaredNamesOf site s.scopes.size list)
      ((statements site list).run s).2 := by
  cases list with
  | nil =>
    rw [declaredNamesOf, List.append_nil]
    exact h
  | cons first rest =>
    obtain ⟨hbinds, -⟩ := statement_binds site first s
    rw [declaredNamesOf] at hnumbers ⊢
    have hfirst := statement_accounts first site h hsite hnumbers.left
    have hrest := statements_accounts rest site hfirst (hsite.mono hbinds.size_le)
    rw [hbinds.size] at hrest
    rw [← List.append_assoc]
    exact hrest hnumbers.right

end

end Bind

end ExpressionTyping
