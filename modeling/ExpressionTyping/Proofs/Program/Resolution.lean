import ExpressionTyping.Proofs.Program.Annotations

/-!
# Resolving a file and its copy

A symbol is resolved from its declarations, which lead on to other symbols of the file. Along such a
chain the symbols that are being resolved, those that are resolved, and what is left of the limit
are the same in both programs, up to copies, so both run in step to the end (`symbol_follows`). With
binding this gives what this development is about: a file compiled into a program leaves there a
copy of what it leaves in the empty program (`add_embeds`).
-/

set_option autoImplicit false

namespace ExpressionTyping

open ResolveState (Copies)

/-- Repeats are dropped alike under an injective map. -/
theorem eraseDups_map {α β : Type} [BEq α] [LawfulBEq α] [BEq β] [LawfulBEq β] {f : α → β}
    (hinj : Function.Injective f) : ∀ list : List α, (list.map f).eraseDups = list.eraseDups.map f
  | [] => rfl
  | a :: rest => by
    have hfilter : ((fun b => !b == f a) ∘ f) = fun b => !b == a := by
      funext b
      rw [Function.comp_apply, Bool.eq_iff_iff]
      simp [hinj.eq_iff]
    rw [List.map_cons, List.eraseDups_cons, List.eraseDups_cons, List.map_cons, List.filter_map,
      hfilter, eraseDups_map hinj]
termination_by list => list.length
decreasing_by exact Nat.lt_succ_of_le (List.length_filter_le _ _)

/-! ## Declarations of a file and its copy -/

section Moved

variable {base : Program}

/-- The declarations of the copies of symbols. -/
def Pending.moved (base : Program) (pending : Pending) : Pending :=
  pending.map fun entry => (base.symbolPlace entry.1, entry.2.moved base)

/-- The sorts of all declared symbols are known. -/
def Pending.Known (links : Links) (pending : Pending) : Prop :=
  ∀ entry ∈ pending, (Bound.declaration entry.1 entry.2).Known links

/-- Known declarations stay known once more is linked. -/
theorem Pending.Known.mono {links links' : Links} {pending : Pending} (h : pending.Known links)
    (hle : links ≤ links') : pending.Known links' :=
  fun entry hentry => (h entry hentry).mono hle

/-- The moved declarations of a moved symbol are its declarations, moved. -/
theorem Pending.declarationsOf_moved (hinj : Function.Injective base.symbolPlace)
    (pending : Pending) (id : SymbolId) :
    (pending.moved base).declarationsOf (base.symbolPlace id) =
      (pending.declarationsOf id).map (Declaration.moved base) := by
  unfold declarationsOf moved
  rw [List.filter_map, List.map_map, List.map_map]
  congr 1
  apply List.filter_congr
  intro entry _
  simp [hinj.eq_iff]

/-- The first declaration of a symbol is one of the pending ones. -/
theorem Pending.mem_of_declarationsOf {pending : Pending} {id : SymbolId} {first : Declaration}
    {rest : List Declaration} (h : pending.declarationsOf id = first :: rest) :
    (id, first) ∈ pending := by
  have hmem : first ∈ pending.declarationsOf id := h ▸ List.mem_cons_self
  obtain ⟨⟨id', declaration⟩, hentry, rfl⟩ := List.mem_map.mp hmem
  obtain ⟨hpending, hid⟩ := List.mem_filter.mp hentry
  cases of_decide_eq_true hid
  exact hpending

/-- The symbols are declared in the same order after the move. -/
theorem Pending.symbols_moved (hinj : Function.Injective base.symbolPlace) (pending : Pending) :
    (pending.moved base).symbols = pending.symbols.map base.symbolPlace := by
  unfold symbols moved
  rw [List.map_map, ← eraseDups_map hinj, List.map_map]
  rfl

/-- An alias has its name at the same span after the move. -/
theorem Resolve.aliasSpan?_moved (declarations : List Declaration) :
    aliasSpan? (declarations.map (Declaration.moved base)) = aliasSpan? declarations := by
  induction declarations with
  | nil => rfl
  | cons declaration rest ih =>
    cases declaration with
    | typeAlias _ _ _ => rfl
    | _ => exact ih

/-- A moved symbol is among moved ones exactly if it was among them before. -/
theorem contains_symbolPlace (hinj : Function.Injective base.symbolPlace) (ids : List SymbolId)
    (id : SymbolId) :
    (ids.map base.symbolPlace).contains (base.symbolPlace id) = ids.contains id := by
  simp only [List.contains_eq_mem, List.mem_map_of_injective hinj]

end Moved

/-- Widening matching types gives matching types. -/
theorem Embeds.widen {base own all : Program} {links : Links} (h : Embeds base links own all)
    {a b : TypeId} (hab : links.types a b) :
    links.types (own.types.widen a) (all.types.widen b) := by
  have hget := h.get hab
  unfold TypeTable.widen
  generalize own.types.get a = data at hget ⊢
  generalize all.types.get b = data' at hget ⊢
  cases hget with
  | stringLiteral value => exact links.word .string
  | numberLiteral text => exact links.word .number
  | booleanLiteral value => exact links.word .boolean
  | _ => exact hab

namespace Resolve

variable {base : Program} {links : Links} {file : FileId}

/-! ## Symbols -/

/-- The declarations of a symbol give it linked types in both programs; an interface keeps the type
that no other file sees. -/
theorem declaredType_follows {resolve resolve' : SymbolId → Resolve TypeId}
    (h : Resolves base links resolve resolve') {id : SymbolId} {sort : SymbolSort}
    (hid : links.sorts id sort) {first : Declaration}
    (hfirst : sort.ownsType = true → first.isInterface = true) (declarations : List Declaration) :
    Follows (Copies base) links (declaredType file resolve id first declarations)
      (declaredType (base.filePlace file) resolve' (base.symbolPlace id) (first.moved base)
        (declarations.map (Declaration.moved base)))
      fun links' a b => links'.types a b ∧
        (sort.ownsType = true → base.types.entries.size ≤ b.index) := by
  have hlookups : Lookups base links (reference file resolve)
      (reference (base.filePlace file) resolve') := reference_lookups h
  have hplain {links' : Links} {a b : TypeId} (hab : links'.types a b)
      (hother : first.isInterface = false) : links'.types a b ∧
        (sort.ownsType = true → base.types.entries.size ≤ b.index) := by
    refine ⟨hab, fun hsort => ?_⟩
    rw [hfirst hsort] at hother
    cases hother
  cases first with
  | variableDecl scope constant type? initializer =>
    cases type? with
    | some type =>
      exact (typeNode_follows scope type links hlookups).imp fun _ _ _ _ hab => hplain hab rfl
    | none =>
      cases initializer with
      | none => exact .pure (hplain links.any rfl)
      | some initializer =>
        refine program_follows.bind fun links₁ hle own all hprogram => ?_
        have hoffset : ((all.symbol (base.symbolPlace id)).declarations.head?).map Location.offset =
            ((own.symbol id).declarations.head?).map Location.offset := by
          rw [(hprogram.symbol id).declarations, List.head?_map, Option.map_map]
          rfl
        rw [hoffset]
        refine (valueType_follows scope _ initializer links₁ (h.mono hle)).bind ?_
        intro links₂ _ a b hab
        refine program_follows.bind fun links₃ hle' own' all' hprogram' => .pure (hplain ?_ rfl)
        have hab' := hle'.1 a b hab
        split
        · exact hab'
        · exact hprogram'.widen hab'
  | function scope parameters result =>
    refine (signatures_follows declarations hlookups).bind fun links₁ _ _ _ hlist => ?_
    refine (compile_follows (Compile.addType_follows (.callable hlist) rfl)).imp ?_
    exact fun _ _ _ _ hab => hplain hab.1 rfl
  | interface scope members =>
    refine program_follows.bind fun links₁ hle own all hprogram => .pure ?_
    have hsymbol := hprogram.symbol id
    refine ⟨hsymbol.type, fun hsort => hsymbol.own ?_⟩
    rw [hprogram.symbol_sort (hle.2.1 id sort hid), hsort]
  | typeAlias scope nameSpan type =>
    exact (typeNode_follows scope type links hlookups).imp fun _ _ _ _ hab => hplain hab rfl

/-- Giving a symbol its type is copied, if an interface keeps a type of its own. -/
theorem updateType_follows {id : SymbolId} {sort : SymbolSort} (hid : links.sorts id sort)
    {type type' : TypeId} (htype : links.types type type')
    (hown : sort.ownsType = true → base.types.entries.size ≤ type'.index) :
    Follows (Embeds base) links (Compile.updateSymbol id fun s => { s with type })
      (Compile.updateSymbol (base.symbolPlace id) fun s => { s with type := type' })
      fun _ _ _ => True := by
  apply Compile.updateSymbol_follows ⟨sort, hid⟩
  · exact fun _ => rfl
  · intro symbol symbol' hsort h
    refine ⟨h.name, h.sort, h.declarations, htype, fun hinterface => hown ?_⟩
    rw [← hinterface, hsort sort hid]

/-- Marking a symbol as resolved is copied. -/
theorem markResolved_follows (id : SymbolId) :
    Follows (Copies base) links
      (modify fun s => { s with resolved := id :: s.resolved } : Resolve PUnit)
      (modify fun s => { s with resolved := base.symbolPlace id :: s.resolved } : Resolve PUnit)
      fun _ _ _ => True := by
  intro s t hst
  refine ⟨links, le_rfl, ⟨hst.program, ?_⟩, trivial⟩
  show base.symbolPlace id :: t.resolved = (id :: s.resolved).map base.symbolPlace
  rw [hst.resolved, List.map_cons]

/-- A symbol has linked types in both programs, whatever else is being resolved. -/
theorem symbol_follows (hinj : Function.Injective base.symbolPlace) {pending : Pending}
    (limit : Nat) (active : List SymbolId) (hpending : pending.Known links) :
    Resolves base links (symbol file pending limit active)
      (symbol (base.filePlace file) (pending.moved base) limit (active.map base.symbolPlace)) := by
  -- the limit bounds how many symbols may be active, and resolving another one lowers it
  induction limit generalizing links active with
  | zero => exact fun links' _ _ _ => .pure links'.any
  | succ limit ih =>
    intro links₁ hle id hid
    unfold symbol
    simp only [Pending.declarationsOf_moved hinj, contains_symbolPlace hinj, aliasSpan?_moved]
    split
    · -- the way led back to the symbol, and only aliases are reported
      cases aliasSpan? (pending.declarationsOf id) with
      | none => exact .pure links₁.any
      | some span =>
        refine program_follows.bind fun links₂ _ own all hprogram => ?_
        rw [(hprogram.symbol id).name]
        exact report_follows file span _
    · refine Follows.get.bind fun links₂ hle' s t hst => ?_
      rw [hst.resolved, contains_symbolPlace hinj]
      split
      · refine program_follows.bind fun links₃ _ own all hprogram => .pure ?_
        exact (hprogram.symbol id).type
      · cases hdeclarations : pending.declarationsOf id with
        | nil =>
          refine program_follows.bind fun links₃ _ own all hprogram => .pure ?_
          exact (hprogram.symbol id).type
        | cons first rest =>
          have hknown := (hpending.mono (hle.trans hle')) _
            (Pending.mem_of_declarationsOf hdeclarations)
          obtain ⟨sort, hsort, hfirst⟩ := hknown
          have hnext := ih (id :: active) (hpending.mono (hle.trans hle'))
          refine (declaredType_follows hnext hsort hfirst (first :: rest)).bind ?_
          rintro links₃ hle₃ type type' ⟨htype, hown⟩
          refine (compile_follows (updateType_follows (hle₃.2.1 _ _ hsort) htype hown)).bind ?_
          intro links₄ hle₄ _ _ _
          refine (markResolved_follows id).bind fun links₅ hle₅ _ _ _ => .pure ?_
          exact (hle₄.trans hle₅).1 _ _ htype

/-- Resolving a symbol while no other is active is copied. -/
theorem fresh_follows (file : FileId) (hinj : Function.Injective base.symbolPlace)
    {pending : Pending} (hpending : pending.Known links) :
    Resolves base links (fresh file pending)
      (fresh (base.filePlace file) (pending.moved base)) := by
  have hlength : (pending.moved base).length = pending.length := List.length_map _
  unfold fresh
  rw [hlength]
  exact symbol_follows hinj _ [] hpending

/-! ## Members of interfaces -/

/-- The members that declarations list are added alike on both sides. -/
theorem interfaceElements_follows {lookup lookup' : TypeLookup} (declarations : List Declaration)
    (h : Lookups base links lookup lookup') {members members' : SymbolTable SymbolId}
    (hmembers : Members base links members members') :
    Follows (Copies base) links (interfaceElements file lookup declarations members)
      (interfaceElements (base.filePlace file) lookup' (declarations.map (Declaration.moved base))
        members') (Members base) := by
  induction declarations generalizing links members members' with
  | nil => exact .pure hmembers
  | cons declaration rest ih =>
    cases declaration with
    | interface scope list =>
      refine (elements_follows scope list links h hmembers).bind fun links₁ hle _ _ hfirst => ?_
      exact ih (h.mono hle) hfirst
    | _ => exact ih h hmembers

/-- Giving an interface its members is copied. -/
theorem interfaceMembers_follows (hinj : Function.Injective base.symbolPlace) {pending : Pending}
    (hpending : pending.Known links) {id : SymbolId} (hid : links.sorts id .interface) :
    Follows (Copies base) links (interfaceMembers file pending id)
      (interfaceMembers (base.filePlace file) (pending.moved base) (base.symbolPlace id))
      fun _ _ _ => True := by
  have hlookups : Lookups base links (reference file (fresh file pending))
      (reference (base.filePlace file) (fresh (base.filePlace file) (pending.moved base))) :=
    reference_lookups (fresh_follows file hinj hpending)
  unfold interfaceMembers
  rw [Pending.declarationsOf_moved hinj]
  refine (interfaceElements_follows _ hlookups .nil).bind fun links₁ hle₁ _ _ hmembers => ?_
  intro s t hst
  have hsymbol := hst.program.symbol id
  have hinterface : (s.program.symbol id).sort = .interface :=
    hst.program.symbol_sort (hle₁.2.1 id _ hid)
  refine ⟨links₁, le_rfl, ⟨?_, ?_⟩, trivial⟩
  · -- an interface has a type of its own, so no type of another file is changed
    exact hst.program.setMembers hsymbol.type (hsymbol.own (hinterface ▸ rfl)) hmembers
  · show base.symbolPlace id :: t.resolved = (id :: s.resolved).map base.symbolPlace
    rw [hst.resolved, List.map_cons]

/-! ## Assignments -/

/-- Whether a value of a type with these parts may belong to a member of a union. -/
def mayBelong (types : TypeTable) (parts : List TypeId) (member : TypeId) : Bool :=
  (types.get member).flags.has TypeFlags.unknown ||
    parts.any fun part => part = member || types.widen part = member

/-- A value may belong to matching members of a union alike. -/
theorem mayBelong_eq {own all : Program} (h : Embeds base links own all) {member member' : TypeId}
    (hmember : links.types member member') {parts parts' : List TypeId}
    (hparts : List.Forall₂ links.types parts parts') :
    mayBelong all.types parts' member' = mayBelong own.types parts member := by
  unfold mayBelong
  rw [(h.get hmember).flags]
  congr 1
  induction hparts with
  | nil => rfl
  | cons hpart _ ih =>
    rw [List.any_cons, List.any_cons, ih]
    simp only [links.oneToOne hpart hmember, links.oneToOne (h.widen hpart) hmember]

/-- Narrowing matching types gives matching types. -/
theorem narrowed_follows {declared declared' assigned assigned' : TypeId}
    (hdeclared : links.types declared declared') (hassigned : links.types assigned assigned') :
    Follows (Embeds base) links (narrowed declared assigned) (narrowed declared' assigned')
      Links.types := by
  refine Follows.get.bind fun links₁ hle own all h => ?_
  have hunchanged := hle.1 _ _ hdeclared
  have hparts := h.constituents (hle.1 _ _ hassigned)
  have hget := h.get hunchanged
  simp only
  generalize own.types.get declared = data at hget ⊢
  generalize all.types.get declared' = data' at hget ⊢
  cases hget with
  | @union members members' hmembers =>
    have hkept : List.Forall₂ links₁.types
        (members.filter (mayBelong own.types (own.types.constituents assigned)))
        (members'.filter (mayBelong all.types (all.types.constituents assigned'))) := by
      refine List.rel_filter ?_ hmembers
      intro member member' hmember
      simp only [mayBelong_eq h hmember hparts]
    change Follows _ _
      (if (members.filter (mayBelong own.types _)).isEmpty then pure declared
        else Compile.unionOf (members.filter (mayBelong own.types _)))
      (if (members'.filter (mayBelong all.types _)).isEmpty then pure declared'
        else Compile.unionOf (members'.filter (mayBelong all.types _))) _
    generalize members.filter (mayBelong own.types _) = kept at hkept ⊢
    generalize members'.filter (mayBelong all.types _) = kept' at hkept ⊢
    cases hkept with
    | nil => exact .pure hunchanged
    | cons hfirst hrest => exact Compile.unionOf_follows (.cons hfirst hrest)
  | _ => exact .pure hunchanged

/-- Adding an assignment to a scope is copied. -/
theorem addAssignment_follows (scope : ScopeId) {id : SymbolId} (hid : links.Knows id)
    (offset : Nat) {type type' : TypeId} (htype : links.types type type') :
    Follows (Embeds base) links
      (Compile.updateScope scope fun scope =>
        { scope with assignments := scope.assignments ++ [⟨id, offset, type⟩] })
      (Compile.updateScope (base.scopePlace scope) fun scope =>
        { scope with assignments := scope.assignments ++ [⟨base.symbolPlace id, offset, type'⟩] })
      fun _ _ _ => True := by
  apply Compile.updateScope_follows
  intro scope scope' h
  refine { h with assignments := List.rel_append h.assignments (.cons ?_ .nil) }
  exact ⟨rfl, rfl, htype, hid⟩

/-- Recording an assignment is copied. -/
theorem assignment_follows (hinj : Function.Injective base.symbolPlace) {pending : Pending}
    (hpending : pending.Known links) (a : PendingAssignment) :
    Follows (Copies base) links (assignment file pending a)
      (assignment (base.filePlace file) (pending.moved base) (a.moved base)) fun _ _ _ => True := by
  refine program_follows.bind fun links₁ hle₁ own all hprogram => ?_
  have hresolve : all.resolveValue? (a.moved base).scope (a.moved base).target.text = _ :=
    hprogram.resolveValue? a.scope a.target.text
  rw [hresolve]
  cases hfound : own.resolveValue? a.scope a.target.text with
  | none => exact compile_follows (Compile.report_follows file _ _)
  | some id =>
    have hid := hprogram.knows_of_resolveValue? hfound
    refine program_follows.bind fun links₂ hle₂ own' all' hprogram' => ?_
    have htarget := hprogram'.symbol id
    simp only [htarget.sort]
    split
    · exact compile_follows (Compile.report_follows file _ _)
    · split
      · have hfresh := fresh_follows file hinj (hpending.mono (hle₁.trans hle₂))
        refine (valueType_follows a.scope a.stop a.value links₂ hfresh).bind ?_
        intro links₃ hle₃ assigned assigned' hassigned
        have hdeclared := hle₃.1 _ _ htarget.type
        refine (compile_follows (narrowed_follows hdeclared hassigned)).bind ?_
        intro links₄ hle₄ type type' htype
        have hid₄ := hid.mono ((hle₂.trans hle₃).trans hle₄)
        exact compile_follows (addAssignment_follows a.scope hid₄ a.stop htype)
      · exact .pure trivial

/-! ## Everything a file declares -/

/-- The declarations among what binding hands on. -/
def pendingOf (bound : List Bound) : Pending :=
  bound.filterMap fun
    | .declaration id declaration => some (id, declaration)
    | .assignment _ => none

/-- The pending declarations of moved ones are the pending ones, moved. -/
theorem pendingOf_moved (bound : List Bound) :
    pendingOf (bound.map (Bound.moved base)) = (pendingOf bound).moved base := by
  unfold pendingOf Pending.moved
  rw [List.filterMap_map, List.map_filterMap]
  congr 1
  funext b
  cases b <;> rfl

/-- Known declarations are known as pending ones. -/
theorem pendingOf_known {bound : List Bound} (h : ∀ b ∈ bound, b.Known links) :
    (pendingOf bound).Known links := by
  intro entry hentry
  obtain ⟨b, hb, heq⟩ := List.mem_filterMap.mp hentry
  cases b with
  | declaration id declaration =>
    cases heq
    exact h _ hb
  | assignment a => cases heq

/-- The symbols of known declarations are known. -/
theorem knows_of_mem_symbols {pending : Pending} (h : pending.Known links) {id : SymbolId}
    (hid : id ∈ pending.symbols) : links.Knows id := by
  obtain ⟨entry, hentry, rfl⟩ := List.mem_map.mp (List.mem_eraseDups.mp hid)
  obtain ⟨sort, hsort, -⟩ := h entry hentry
  exact ⟨sort, hsort⟩

/-- Everything is resolved in three rounds: interfaces, symbols, assignments. -/
theorem everything_eq (file : FileId) (bound : List Bound) :
    everything file bound = (do
      (pendingOf bound).symbols.forM fun id => do
        if ((← program).symbol id).sort = .interface then interfaceMembers file (pendingOf bound) id
      (pendingOf bound).symbols.forM fun id => do
        let _ ← fresh file (pendingOf bound) id
      bound.forM fun
        | .assignment a => assignment file (pendingOf bound) a
        | .declaration _ _ => return ()) :=
  rfl

/-- Resolving a whole file is copied. -/
theorem everything_follows (file : FileId) (hinj : Function.Injective base.symbolPlace)
    {bound : List Bound} (hbound : ∀ b ∈ bound, b.Known links) :
    Follows (Copies base) links (everything file bound)
      (everything (base.filePlace file) (bound.map (Bound.moved base))) fun _ _ _ => True := by
  have hpending := pendingOf_known hbound
  rw [everything_eq, everything_eq, pendingOf_moved, Pending.symbols_moved hinj]
  refine (Follows.forM_map _ ?interfaces).bind fun links₁ hle₁ _ _ _ =>
    (Follows.forM_map _ ?symbols).bind fun links₂ hle₂ _ _ _ => Follows.forM_map _ ?assignments
  case interfaces =>
    intro links' hle id hid
    refine program_follows.bind fun links'' hle' own all hprogram => ?_
    obtain ⟨sort, hsort⟩ := knows_of_mem_symbols (hpending.mono (hle.trans hle')) hid
    rw [(hprogram.symbol id).sort, hprogram.symbol_sort hsort]
    split
    · rename_i hinterface
      subst hinterface
      exact interfaceMembers_follows hinj (hpending.mono (hle.trans hle')) hsort
    · exact .pure trivial
  case symbols =>
    intro links' hle id hid
    have hpending' := hpending.mono (hle₁.trans hle)
    refine (fresh_follows file hinj hpending' links' le_rfl id ?_).bind
      fun _ _ _ _ _ => .pure trivial
    exact knows_of_mem_symbols hpending' hid
  case assignments =>
    intro links' hle b _
    cases b with
    | declaration symbol declaration => exact .pure trivial
    | assignment a => exact assignment_follows hinj (hpending.mono ((hle₁.trans hle₂).trans hle)) a

end Resolve

end ExpressionTyping
