import ExpressionTyping.Proofs.Program.BindingRuns
import ExpressionTyping.Proofs.Program.Safety

/-!
# Which declarations share a symbol

Binding meets the declarations of a file in the order in which a visitor meets them, and gives each
that it hands on a symbol. `Logs` is the book it could keep: which symbol each met declaration got.
A symbol that several declarations got has one name and one sort, and the sort is one whose
declarations add to each other; so a variable shares its symbol only with `var` variables of its
name. What is noted down for a file by the numbers of its declarations comes from this book
(`Program.WellFormed.boundIn_logs`).
-/

set_option autoImplicit false

namespace ExpressionTyping

/-! ## What a visit declares -/

/-- The sort of the variables that a form declares. -/
def VariableForm.sort : VariableForm → SymbolSort
  | .hoisted => .hoistedVariable
  | .block => .blockVariable
  | .constant => .constant

/-- The sort of a variable's symbol is that of its form. -/
theorem Bind.variableTarget_sort (site : Site) (form : VariableForm) :
    (Bind.variableTarget site form).2 = form.sort := by
  cases form <;> rfl

namespace Visit

/-- The name and the sort of what a declaration declares. -/
def declares? : Visit → Option (String × SymbolSort)
  | .variableDecl statement declaration => some (declaration.name.text, statement.form.sort)
  | .function declaration => some (declaration.name.text, .function)
  | .interface declaration => some (declaration.name.text, .interface)
  | .typeAlias declaration => some (declaration.name.text, .typeAlias)
  | .expression _ _ => none

/-- Two declarations of one name and of one sort, which add to each other. -/
def Merges (visit other : Visit) : Prop :=
  ∃ name sort, visit.declares? = some (name, sort) ∧ other.declares? = some (name, sort) ∧
    sort.merges sort = true

/-- What a variable is handed on as. -/
def Makes (visit : Visit) (made : Declaration) : Prop :=
  ∀ statement declaration, visit = .variableDecl statement declaration →
    ∃ scope constant, made =
      .variableDecl scope constant declaration.type? declaration.initializer

end Visit

/-- What is noted down for a file: the symbols of its declarations by their numbers. -/
def Program.records (program : Program) (file : FileId) : List (Nat × SymbolId) :=
  ((program.file? file).map FileInfo.declarations).getD []

/-- The symbol of a declaration is looked up by its number in what is noted down for the file. -/
theorem Program.symbolOf?_eq (program : Program) (file : FileId) (number : Nat) :
    program.symbolOf? file number = (program.records file).lookup number := by
  unfold symbolOf? records file?
  cases program.files[file.index]? <;> rfl

/-! ## The book of a walk -/

/-- A declaration that was given a symbol: the symbol has its name and its sort, and is a new one
unless declarations of that sort add to each other. -/
structure Entered (before after : Program) (entry : SymbolId × Visit) : Prop where
  symbol : ∃ symbol, after.symbol? entry.1 = some symbol ∧
    entry.2.declares? = some (symbol.name, symbol.sort)
  origin : before.symbols.size ≤ entry.1.index ∨ entry.2.Merges entry.2

/-- The book of a walk over visits that hands declarations on and notes down their symbols. -/
structure Logs (file : FileId) (before after : Program) (visits : List Visit) (bound : List Bound)
    (log : List (SymbolId × Visit)) : Prop where
  ordered : (log.map Prod.snd).Sublist visits
  makes : List.Forall₂ (fun entry logged => entry.1 = logged.1 ∧ logged.2.Makes entry.2)
    (Resolve.pendingOf bound) log
  entered : ∀ entry ∈ log, Entered before after entry
  shared : log.Pairwise fun entry later => entry.1 = later.1 → entry.2.Merges later.2
  recorded : ∀ record ∈ after.records file, record ∈ before.records file ∨
    ∃ visit, (record.2, visit) ∈ log ∧ visit.number? = some record.1

/-- A declaration that was given a symbol in a program stays so in programs that extend it. -/
theorem Entered.mono {before after later : Program} (h : after.Extends later)
    {entry : SymbolId × Visit} (hentered : Entered before after entry) :
    Entered before later entry := by
  obtain ⟨⟨symbol, hsymbol, hdeclares⟩, horigin⟩ := hentered
  obtain ⟨symbol', hsymbol', hgrows⟩ := h.symbols _ _ hsymbol
  refine ⟨⟨symbol', hsymbol', ?_⟩, horigin⟩
  rw [hgrows.name, hgrows.sort, hdeclares]

namespace Logs

variable {file : FileId} {s s₁ s₂ : Program}

/-- A walk that hands on no declaration. -/
theorem quiet (hrecords : s₁.records file ⊆ s.records file) (visits : List Visit)
    {bound : List Bound} (hbound : Resolve.pendingOf bound = []) :
    Logs file s s₁ visits bound [] :=
  ⟨List.nil_sublist _, hbound ▸ .nil, nofun, .nil, fun _ hrecord => .inl (hrecords hrecord)⟩

/-- A walk that hands on one declaration. -/
theorem single (visit : Visit) {number : Nat} (hnumber : visit.number? = some number)
    {id : SymbolId} {made : Declaration} (hmakes : visit.Makes made)
    (hentered : Entered s s₁ (id, visit))
    (hrecords : s₁.records file ⊆ (number, id) :: s.records file) :
    Logs file s s₁ [visit] [.declaration id made] [(id, visit)] where
  ordered := List.Sublist.refl _
  makes := .cons ⟨rfl, hmakes⟩ .nil
  entered := List.forall_mem_singleton.mpr hentered
  shared := List.pairwise_singleton _ _
  recorded record hrecord := by
    rcases List.mem_cons.mp (hrecords hrecord) with rfl | hold
    · exact .inr ⟨visit, List.mem_cons_self, hnumber⟩
    · exact .inl hold

/-- A visit that declares nothing leaves the book as it is. -/
theorem skip {visits : List Visit} {bound : List Bound} {log : List (SymbolId × Visit)}
    (h : Logs file s s₁ visits bound log) (visit : Visit) :
    Logs file s s₁ (visit :: visits) bound log :=
  { h with ordered := h.ordered.cons visit }

/-- One walk after another. -/
theorem append {visits visits' : List Visit} {bound bound' : List Bound}
    {log log' : List (SymbolId × Visit)} (h : Logs file s s₁ visits bound log)
    (h' : Logs file s₁ s₂ visits' bound' log') (hext : s.Extends s₁) (hext' : s₁.Extends s₂) :
    Logs file s s₂ (visits ++ visits') (bound ++ bound') (log ++ log') := by
  have hentered := fun entry hentry => (h.entered entry hentry).mono hext'
  constructor
  case ordered =>
    rw [List.map_append]
    exact h.ordered.append h'.ordered
  case makes =>
    rw [Resolve.pendingOf, List.filterMap_append]
    exact List.rel_append h.makes h'.makes
  case entered =>
    intro entry hentry
    rcases List.mem_append.mp hentry with hold | hnew
    · exact hentered entry hold
    · obtain ⟨hsymbol, horigin⟩ := h'.entered entry hnew
      exact ⟨hsymbol, horigin.imp_left (Nat.le_trans hext.symbols.size_le)⟩
  case shared =>
    refine List.pairwise_append.mpr ⟨h.shared, h'.shared, ?_⟩
    rintro ⟨id, visit⟩ hold ⟨id', visit'⟩ hnew heq
    cases heq
    -- the symbol was there before the second walk, so this walk merged into it
    obtain ⟨⟨symbol₁, hsymbol₁, -⟩, -⟩ := h.entered _ hold
    obtain ⟨⟨symbol, hsymbol, hdeclares⟩, -⟩ := hentered _ hold
    obtain ⟨⟨symbol', hsymbol', hdeclares'⟩, horigin⟩ := h'.entered _ hnew
    cases hsymbol.symm.trans hsymbol'
    have hthere : id.index < s₁.symbols.size := (Program.HasSymbol.of_symbol? hsymbol₁).1
    obtain ⟨name, sort, hname, -, hmerges⟩ := horigin.resolve_left (Nat.not_le_of_lt hthere)
    cases hdeclares'.symm.trans hname
    exact ⟨_, _, hdeclares, hdeclares', hmerges⟩
  case recorded =>
    intro record hrecord
    rcases h'.recorded record hrecord with hmiddle | ⟨visit, hlogged, hnumber⟩
    · rcases h.recorded record hmiddle with hold | ⟨visit, hlogged, hnumber⟩
      · exact .inl hold
      · exact .inr ⟨visit, List.mem_append_left _ hlogged, hnumber⟩
    · exact .inr ⟨visit, List.mem_append_right _ hlogged, hnumber⟩

end Logs

/-! ## Declaring a name -/

namespace Bind

variable {s : Program} {site : Site}

/-- What is left by declaring a name in a program. -/
structure Enters (file : FileId) (before after : Program) (name : String) (sort : SymbolSort)
    (number : Nat) (id : SymbolId) : Prop where
  symbol : ∃ symbol, after.symbol? id = some symbol ∧ symbol.name = name ∧ symbol.sort = sort
  origin : before.symbols.size ≤ id.index ∨ sort.merges sort = true
  records : after.records file ⊆ (number, id) :: before.records file

/-- A declaration that is noted down was given a symbol of its name and its sort. -/
theorem Enters.entered {before after : Program} {file : FileId} {visit : Visit} {name : String}
    {sort : SymbolSort} {number : Nat} {id : SymbolId}
    (h : Enters file before after name sort number id)
    (hvisit : visit.declares? = some (name, sort)) : Entered before after (id, visit) := by
  obtain ⟨symbol, hsymbol, rfl, rfl⟩ := h.symbol
  exact ⟨⟨symbol, hsymbol, hvisit⟩, h.origin.imp_right fun h => ⟨_, _, hvisit, hvisit, h⟩⟩

/-- Noting down a symbol that is there, with nothing noted down since. -/
theorem recorded_enters {middle : Program} {id : SymbolId} {symbol : Symbol}
    (hsymbol : middle.symbol? id = some symbol) (hfiles : middle.files = s.files)
    (horigin : s.symbols.size ≤ id.index ∨ symbol.sort.merges symbol.sort = true)
    (name : Identifier) (number : Nat) :
    Enters site.file s (recorded site id name number middle) symbol.name symbol.sort number id := by
  refine ⟨?_, horigin, ?_⟩
  · refine ⟨{ symbol with
      declarations := symbol.declarations ++ [⟨site.file, name.node.span.start⟩] }, ?_, rfl, rfl⟩
    show (middle.symbols.modify id.index _)[id.index]? = _
    rw [Program.symbol?] at hsymbol
    rw [Array.getElem?_modify, if_pos rfl, hsymbol]
    rfl
  · intro record hrecord
    unfold Program.records at hrecord ⊢
    have hmodified : (recorded site id name number middle).file? site.file =
        (s.file? site.file).map fun info =>
          { info with declarations := (number, id) :: info.declarations } := by
      show (middle.files.modify site.file.index _)[site.file.index]? = _
      rw [Array.getElem?_modify, if_pos rfl, hfiles]
      rfl
    rw [hmodified] at hrecord
    cases hinfo : s.file? site.file with
    | none =>
      rw [hinfo] at hrecord
      cases hrecord
    | some info =>
      rw [hinfo] at hrecord
      exact hrecord

/-- A new symbol is noted down. -/
theorem pushed_enters {middle : Program} {name : Identifier} {sort : SymbolSort} {type : TypeId}
    (hsymbols : middle.symbols = s.symbols.push ⟨name.text, sort, [], type⟩)
    (hfiles : middle.files = s.files) (number : Nat) :
    Enters site.file s (recorded site ⟨s.symbols.size⟩ name number middle) name.text sort number
      ⟨s.symbols.size⟩ := by
  have hsymbol : middle.symbol? ⟨s.symbols.size⟩ = some ⟨name.text, sort, [], type⟩ := by
    rw [Program.symbol?, hsymbols, Array.getElem?_push, if_pos rfl]
  exact recorded_enters hsymbol hfiles (.inl (Nat.le_refl _)) name number

/-- A symbol of the same name and of a sort that adds to itself is noted down again. -/
theorem merged_enters {table : SymbolTable SymbolId} (htable : table.Names s) {name : Identifier}
    {existing : SymbolId} (hfound : table.get? name.text = some existing) {sort : SymbolSort}
    (hmerges : (s.symbol existing).sort.merges sort = true) (number : Nat) :
    Enters site.file s (recorded site existing name number s) name.text sort number existing := by
  obtain ⟨hexisting, hname⟩ := htable.get? hfound
  have hsort := SymbolSort.eq_of_merges hmerges
  rw [← hname, ← hsort]
  refine recorded_enters hexisting.symbol? rfl (.inr ?_) name number
  rw [hsort] at hmerges ⊢
  exact hmerges

/-- Declaring a value gives a symbol of its name and its sort, and notes it down under the number of
the declaration. -/
theorem declareValue_enters (hs : s.WellFormed) {target : ScopeId} (htarget : s.HasScope target)
    (name : Identifier) (sort : SymbolSort) (number : Nat) :
    Enters site.file s ((declareValue site target name sort number).run s).2 name.text sort number
      ((declareValue site target name sort number).run s).1 := by
  cases hfound : (s.scope target).values.get? name.text with
  | some existing =>
    by_cases hmerges : (s.symbol existing).sort.merges sort = true
    · rw [declareValue_run_of_merges site hfound hmerges]
      exact merged_enters (hs.scope_fits htarget).values hfound hmerges number
    · rw [declareValue_run_of_taken site hfound hmerges]
      exact pushed_enters (by rfl) (by rfl) number
  | none =>
    rw [declareValue_run_of_new site hfound]
    exact pushed_enters (by rfl) (by rfl) number

/-- Declaring a type gives it a symbol, or notes down nothing. -/
theorem declareType_enters (hs : s.WellFormed) (hscope : s.HasScope site.scope) (name : Identifier)
    (sort : SymbolSort) (number : Nat) :
    match ((declareType site name sort number).run s).1 with
    | some id => Enters site.file s ((declareType site name sort number).run s).2 name.text sort
        number id
    | none => ((declareType site name sort number).run s).2.files = s.files := by
  cases hfound : (s.scope site.scope).types.get? name.text with
  | some existing =>
    by_cases hmerges : (s.symbol existing).sort.merges sort = true
    · rw [declareType_run_of_merges hfound hmerges]
      exact merged_enters (hs.scope_fits hscope).types hfound hmerges number
    · rw [declareType_run_of_taken hfound hmerges]
      rfl
  | none =>
    rw [declareType_run_of_new hfound]
    exact pushed_enters (by rfl) (by rfl) number

/-! ## Statements -/

/-- Opening a scope notes nothing down. -/
theorem addScope_records (file : FileId) (enclosing : List ScopeId) (span : Span) (s : Program) :
    ((Compile.addScope file enclosing span).run s).2.records file = s.records file := by
  have hfile : ((Compile.addScope file enclosing span).run s).2.file? file =
      (s.file? file).map fun info => { info with scopes := info.scopes ++ [⟨s.scopes.size⟩] } := by
    show (s.files.modify file.index _)[file.index]? = _
    rw [Array.getElem?_modify, if_pos rfl]
    rfl
  unfold Program.records
  rw [hfile]
  cases s.file? file <;> rfl

/-- Binding a list of variables keeps the book of its visits. -/
theorem variableList_logs (hs : s.WellFormed) (hsite : site.Fits s) (statement : VariableStatement)
    {text : List Char} {list : List VariableDeclaration}
    (hlist : ∀ declaration ∈ list, declaration.Placed text) :
    ∃ log, Logs site.file s ((variableList site statement.form list).run s).2
      (list.map (.variableDecl statement)) ((variableList site statement.form list).run s).1
      log := by
  induction list generalizing s with
  | nil => exact ⟨[], .quiet (List.Subset.refl _) _ rfl⟩
  | cons declaration rest ih =>
    obtain ⟨hplaced, hrest⟩ := List.forall_mem_cons.mp hlist
    by_cases hmissing : declaration.name.isMissing = true
    · obtain ⟨log, hlog⟩ := ih hs hsite hrest
      rw [variableList_run_of_missing site statement.form hmissing]
      exact ⟨log, hlog.skip _⟩
    · have htarget := hsite.hasTarget statement.form
      let declared := declareValue site (variableTarget site statement.form).1 declaration.name
        (variableTarget site statement.form).2 declaration.node.id
      obtain ⟨-, hs₁, hbuilds₁, -⟩ := Guarded.declareValue_safe hsite htarget hplaced.name
        (variableTarget site statement.form).2 declaration.node.id hs
      have hsite₁ := hsite.mono hbuilds₁.toExtends
      have hbuilds₂ := (Guarded.variableList_safe hsite₁ statement.form hrest hs₁).2.2.1
      obtain ⟨log, hlog⟩ := ih hs₁ hsite₁ hrest
      have hfirst : Enters site.file s (declared.run s).2 declaration.name.text
          (variableTarget site statement.form).2 declaration.node.id (declared.run s).1 :=
        declareValue_enters hs htarget declaration.name _ declaration.node.id
      rw [variableTarget_sort] at hfirst
      rw [variableList_cons_run site statement.form rest hmissing rfl]
      refine ⟨_, (Logs.single (.variableDecl statement declaration) rfl ?_
        (hfirst.entered rfl) hfirst.records).append hlog hbuilds₁.toExtends hbuilds₂.toExtends⟩
      rintro _ _ ⟨⟩
      exact ⟨_, _, rfl⟩

/-- Binding a function keeps the book of its visit. -/
theorem function_logs (hs : s.WellFormed) (hsite : site.Fits s)
    (declaration : FunctionDeclaration) :
    ∃ log, Logs site.file s ((Bind.function site declaration).run s).2 [.function declaration]
      ((Bind.function site declaration).run s).1 log := by
  by_cases hmissing : declaration.name.isMissing = true
  · rw [function_run_of_missing site hmissing]
    exact ⟨[], .quiet (List.Subset.refl _) _ rfl⟩
  · let declared := declareValue site site.scope declaration.name .function declaration.node.id
    have hfirst : Enters site.file s (declared.run s).2 declaration.name.text .function
        declaration.node.id (declared.run s).1 :=
      declareValue_enters hs hsite.hasScope declaration.name _ declaration.node.id
    rw [function_run site hmissing rfl]
    exact ⟨_, .single (.function declaration) rfl nofun (hfirst.entered rfl) hfirst.records⟩

/-- A declaration of a type is logged if it was given a symbol, under which it is handed on. -/
theorem declareType_logs (hs : s.WellFormed) (hscope : s.HasScope site.scope) (visit : Visit)
    {name : Identifier} {sort : SymbolSort} (hvisit : visit.declares? = some (name.text, sort))
    {number : Nat} (hnumber : visit.number? = some number) (made : Declaration)
    (hmakes : visit.Makes made) :
    ∃ log, Logs site.file s ((handOnType site name sort number made).run s).2 [visit]
      ((handOnType site name sort number made).run s).1 log := by
  have henters := declareType_enters hs hscope name sort number
  rw [handOnType_eq]
  generalize (declareType site name sort number).run s = result at henters ⊢
  obtain ⟨_ | id, after⟩ := result
  · refine ⟨[], .quiet (fun record hrecord => ?_) _ rfl⟩
    unfold Program.records Program.file? at hrecord ⊢
    rw [henters] at hrecord
    exact hrecord
  · exact ⟨_, .single visit hnumber hmakes (henters.entered hvisit) henters.records⟩

mutual

/-- Binding a statement keeps the book of what is met in it. -/
theorem statement_logs {s : Program} {site : Site} (hs : s.WellFormed) (hsite : site.Fits s)
    {text : List Char} (statement : Statement) (h : statement.Placed text) :
    ∃ log, Logs site.file s ((Bind.statement site statement).run s).2 statement.visits
      ((Bind.statement site statement).run s).1 log := by
  cases statement with
  | variableList list =>
    cases h with
    | variableList h => exact variableList_logs hs hsite list h
  | function declaration => exact function_logs hs hsite declaration
  | interface declaration =>
    exact declareType_logs hs hsite.hasScope (.interface declaration) rfl rfl
      (.interface site.scope declaration.members) nofun
  | typeAlias declaration =>
    exact declareType_logs hs hsite.hasScope (.typeAlias declaration) rfl rfl
      (.typeAlias site.scope declaration.name.node.span declaration.type) nofun
  | expression node value =>
    refine ⟨[], .quiet (List.Subset.refl _) _ ?_⟩
    show Resolve.pendingOf (assignment site node value) = []
    unfold assignment
    split <;> rfl
  | empty node => exact ⟨[], .quiet (List.Subset.refl _) _ rfl⟩
  | block node body =>
    cases h with
    | block hspan h =>
      obtain ⟨-, hs₁, hbuilds₁, hinner⟩ := Guarded.openBlock_safe hsite hspan.ordered hs
      obtain ⟨log, hlog⟩ := statements_logs hs₁ hinner body h
      have hbuilds₂ := (Guarded.statements_safe hinner body h hs₁).2.2.1
      let opened := Compile.addScope site.file (site.scope :: site.enclosing) node.span
      have hopened : Logs site.file s (opened.run s).2 [] [] [] := by
        refine .quiet ?_ [] rfl
        rw [addScope_records]
        exact List.Subset.refl _
      exact ⟨_, hopened.append hlog hbuilds₁.toExtends hbuilds₂.toExtends⟩

/-- Binding statements keeps the book of what is met in them. -/
theorem statements_logs {s : Program} {site : Site} (hs : s.WellFormed) (hsite : site.Fits s)
    {text : List Char} (list : List Statement) (h : ∀ statement ∈ list, statement.Placed text) :
    ∃ log, Logs site.file s ((statements site list).run s).2 (visitAll list)
      ((statements site list).run s).1 log := by
  cases list with
  | nil => exact ⟨[], .quiet (List.Subset.refl _) _ rfl⟩
  | cons first rest =>
    obtain ⟨hfirst, hrest⟩ := List.forall_mem_cons.mp h
    obtain ⟨-, hs₁, hbuilds₁, -⟩ := Guarded.statement_safe hsite first hfirst hs
    have hsite₁ := hsite.mono hbuilds₁.toExtends
    have hbuilds₂ := (Guarded.statements_safe hsite₁ rest hrest hs₁).2.2.1
    obtain ⟨log, hlog⟩ := statement_logs hs hsite first hfirst
    obtain ⟨log', hlog'⟩ := statements_logs hs₁ hsite₁ rest hrest
    exact ⟨_, hlog.append hlog' hbuilds₁.toExtends hbuilds₂.toExtends⟩

end

end Bind

/-! ## The first declaration of a symbol -/

/-- Declarations that are met have different numbers. -/
theorem Visit.eq_of_number {visits : List Visit}
    (hnumbers : (visits.filterMap number?).Pairwise (· < ·)) {visit other : Visit}
    (hvisit : visit ∈ visits) (hother : other ∈ visits) {number : Nat}
    (hnumber : visit.number? = some number) (hsame : other.number? = some number) :
    visit = other := by
  induction visits with
  | nil => cases hvisit
  | cons first rest ih =>
    -- the number of the first is below all that follow
    have hbelow {visit : Visit} (hmem : visit ∈ rest) (hfirst : first.number? = some number)
        (hnumber : visit.number? = some number) : False := by
      rw [List.filterMap_cons_some hfirst, List.pairwise_cons] at hnumbers
      exact Nat.lt_irrefl _ (hnumbers.1 number (List.mem_filterMap.mpr ⟨visit, hmem, hnumber⟩))
    have hrest : (rest.filterMap number?).Pairwise (· < ·) :=
      hnumbers.sublist ((List.sublist_cons_self first rest).filterMap number?)
    rcases List.mem_cons.mp hvisit with rfl | hmem
    · rcases List.mem_cons.mp hother with rfl | hmem'
      · rfl
      · exact (hbelow hmem' hnumber hsame).elim
    · rcases List.mem_cons.mp hother with rfl | hmem'
      · exact (hbelow hmem hsame hnumber).elim
      · exact ih hrest hmem hmem'

/-- The first declaration of the symbol that is noted down for a declaration is that declaration
itself, or an earlier one that it was merged into. -/
theorem Logs.first {file : FileId} {before after : Program} {visits : List Visit}
    {bound : List Bound} {log : List (SymbolId × Visit)}
    (h : Logs file before after visits bound log) (hnone : before.records file = [])
    (hnumbers : (visits.filterMap Visit.number?).Pairwise (· < ·)) {visit : Visit}
    (hvisit : visit ∈ visits) {number : Nat} (hnumber : visit.number? = some number)
    {id : SymbolId} (hid : (after.records file).lookup number = some id) :
    ∃ first made rest, (Resolve.pendingOf bound).declarationsOf id = made :: rest ∧
      first.Makes made ∧ (first = visit ∨ first.Merges visit ∧ [first, visit].Sublist visits) := by
  have hlogged : (id, visit) ∈ log := by
    obtain ⟨_, _, hsplit, -⟩ := List.lookup_eq_some_iff.mp hid
    have hrecord : (number, id) ∈ after.records file := hsplit ▸ List.mem_append_cons_self
    rcases h.recorded _ hrecord with hold | ⟨other, hother, hsame⟩
    · rw [hnone] at hold
      cases hold
    · have hmem : other ∈ visits := h.ordered.subset (List.mem_map.mpr ⟨_, hother, rfl⟩)
      cases Visit.eq_of_number hnumbers hvisit hmem hnumber hsame
      exact hother
  -- what was handed on for the symbol goes along with what the book says of it
  have hmakes := List.rel_filter (p := fun entry => entry.1 = id) (q := fun logged => logged.1 = id)
    (fun entry logged h => by simp [h.1]) h.makes
  have hmem : (id, visit) ∈ log.filter fun logged => logged.1 = id :=
    List.mem_filter.mpr ⟨hlogged, by simp⟩
  have hsub : (log.filter fun logged => logged.1 = id).Sublist log := List.filter_sublist
  have hall : ∀ logged ∈ log.filter (fun logged => logged.1 = id), logged.1 = id := by simp
  generalize log.filter (fun logged => logged.1 = id) = entries at hmakes hmem hsub hall
  unfold Pending.declarationsOf
  generalize (Resolve.pendingOf bound).filter (fun entry => entry.1 = id) = handed at hmakes ⊢
  cases hmakes with
  | nil => cases hmem
  | @cons entry logged handed entries hfirst hmakes =>
    refine ⟨logged.2, entry.2, _, rfl, hfirst.2, ?_⟩
    rcases List.mem_cons.mp hmem with heq | hlater
    · exact .inl (congrArg Prod.snd heq).symm
    · have hshared := (List.pairwise_cons.mp (h.shared.sublist hsub)).1 _ hlater
      have hvisits := (hsub.map Prod.snd).trans h.ordered
      have hpair : [logged.2, visit].Sublist ((logged :: entries).map Prod.snd) := by
        refine List.Sublist.cons_cons _ (List.singleton_sublist.mpr ?_)
        exact List.mem_map.mpr ⟨_, hlater, rfl⟩
      exact .inr ⟨hshared (hall logged List.mem_cons_self), hpair.trans hvisits⟩

/-- A variable that was merged is a `var` variable, as is what it was merged into, of one name. -/
theorem Visit.Merges.hoisted {first : Visit} {statement : VariableStatement}
    {declaration : VariableDeclaration} (h : first.Merges (.variableDecl statement declaration)) :
    statement.form = .hoisted ∧ ∃ statement' declaration',
      first = .variableDecl statement' declaration' ∧ statement'.form = .hoisted ∧
        declaration'.name.text = declaration.name.text := by
  obtain ⟨name, sort, hfirst, hsecond, hmerges⟩ := h
  cases hsecond
  have hform : statement.form = .hoisted := by
    cases hform : statement.form with
    | hoisted => rfl
    | block | constant =>
      rw [hform] at hmerges
      cases hmerges
  rw [hform] at hfirst
  refine ⟨hform, ?_⟩
  cases first with
  | variableDecl statement' declaration' =>
    obtain ⟨hname, hsort⟩ := Prod.mk.inj (Option.some.inj hfirst)
    refine ⟨statement', declaration', rfl, ?_, hname⟩
    cases hform' : statement'.form with
    | hoisted => rfl
    | block | constant =>
      rw [hform'] at hsort
      cases hsort
  | function | interface | typeAlias => cases (Prod.mk.inj (Option.some.inj hfirst)).2
  | expression => cases hfirst

/-- Binding a parsed file in a well-formed program keeps a book, and nothing was noted down for the
file before. -/
theorem Program.WellFormed.boundIn_logs {program : Program} (h : program.WellFormed)
    {file : SourceFile} {text : List Char}
    (hplaced : ∀ statement ∈ file.statements, statement.Placed text) :
    ∃ before log, before.records (program.boundIn file).1.1 = [] ∧
      Logs (program.boundIn file).1.1 before (program.boundIn file).2 file.visits
        (program.boundIn file).1.2 log := by
  let span : Span := ⟨0, file.node.span.stop⟩
  let added := (Compile.addFile file.name file.node.span.stop).run program
  let opened := (Compile.addScope added.1 [] span).run added.2
  have hspan : span.start ≤ span.stop := Nat.zero_le _
  obtain ⟨-, hadded, -, hfile⟩ := Guarded.addFile_safe file.name file.node.span.stop h
  obtain ⟨-, hopened, -, hinfo, hscope⟩ :=
    Guarded.addScope_safe hfile (List.nil_subset _) nofun hspan hadded
  have hsite : Site.Fits opened.2 ⟨added.1, opened.1, opened.1, []⟩ := by
    obtain ⟨own, hown, henclosing⟩ := hscope
    exact ⟨hinfo, ⟨own, hown, henclosing⟩, (Program.HasScope.of_scope? hown).1⟩
  obtain ⟨log, hlog⟩ := Bind.statements_logs hopened hsite file.statements hplaced
  refine ⟨opened.2, log, ?_, hlog⟩
  show opened.2.records added.1 = []
  rw [Bind.addScope_records]
  unfold Program.records
  rw [hfile]
  rfl

end ExpressionTyping
