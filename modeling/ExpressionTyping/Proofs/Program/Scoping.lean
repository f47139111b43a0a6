import ExpressionTyping.Proofs.Grammar.BlockOrder
import ExpressionTyping.Proofs.Program.Compiled

/-!
# Scopes by location and scopes by nesting

A location is in the scopes whose spans cover it, and a name is looked for in a scope and in those
around it. The blocks of a file stand in order and inside each other, closed or not, so the spans
that cover a location belong to one chain of blocks (`blocksAt_ladder`): each scope at a location
is the next one out from the one after it. A table that is filled from the scopes at a location,
outermost first, therefore holds for each name what is found from the innermost scope
(`Program.scopesAt_lexical`).
-/

set_option autoImplicit false

namespace ExpressionTyping

/-! ## Tables filled from others -/

namespace SymbolTable

variable {α : Type}

/-- A table made of entries and one more is that of the entries with the last one inserted. -/
theorem ofList_concat (entries : List (String × α)) (entry : String × α) :
    ofList (entries ++ [entry]) = (ofList entries).insert entry.1 entry.2 := by
  rw [ofList, List.foldl_append]
  rfl

/-- A filled table has each name where it came first. -/
theorem names_ofList (entries : List (String × α)) :
    (ofList entries).names = (entries.map Prod.fst).eraseDups := by
  induction entries using List.reverseRecOn with
  | nil => rfl
  | append_singleton before entry ih =>
    rw [ofList_concat, names_insert, ih, List.map_append, List.map_singleton, eraseDups_concat]
    simp only [List.mem_eraseDups]

/-- A filled table has for each name what came last. -/
theorem get?_ofList (entries : List (String × α)) (name : String) :
    (ofList entries).get? name = entries.reverse.lookup name := by
  induction entries using List.reverseRecOn with
  | nil => rfl
  | append_singleton before entry ih =>
    rw [ofList_concat, get?_insert, ih, List.reverse_append, List.reverse_singleton,
      List.singleton_append, List.lookup_cons]
    by_cases hname : name = entry.1
    · simp [hname]
    · rw [if_neg hname, beq_false_of_ne hname]

/-- A name that no entry has leads nowhere. -/
theorem lookup_eq_none_of_not_mem {name : String} {entries : List (String × α)}
    (h : name ∉ entries.map Prod.fst) : entries.lookup name = none := by
  rw [List.lookup_eq_none_iff]
  intro entry hentry
  rw [bne_iff_ne]
  rintro rfl
  exact h (List.mem_map_of_mem hentry)

/-- If no name stands in a list twice, it can be read from both ends. -/
theorem lookup_reverse {entries : List (String × α)} (h : (entries.map Prod.fst).Nodup)
    (name : String) : entries.reverse.lookup name = entries.lookup name := by
  induction entries with
  | nil => rfl
  | cons entry rest ih =>
    obtain ⟨hnot, hrest⟩ := List.nodup_cons.mp h
    rw [List.reverse_cons, List.lookup_append, ih hrest, List.lookup_cons, List.lookup_cons]
    by_cases hname : name = entry.1
    · rw [hname, lookup_eq_none_of_not_mem hnot]
      simp
    · rw [beq_false_of_ne hname]
      simp

/-- A table that is filled from several has for each name what the last of them has that has it. -/
theorem get?_ofList_flatMap {ι : Type} (tables : ι → SymbolTable α)
    (h : ∀ i, (tables i).names.Nodup) (ids : List ι) (name : String) :
    (ofList (ids.flatMap fun i => (tables i).entries)).get? name =
      ids.reverse.findSome? fun i => (tables i).get? name := by
  rw [get?_ofList]
  induction ids using List.reverseRecOn with
  | nil => rfl
  | append_singleton before i ih =>
    rw [List.flatMap_append, List.reverse_append, List.lookup_append, ih, List.reverse_append,
      List.reverse_singleton, List.singleton_append, List.findSome?_cons, List.flatMap_singleton,
      lookup_reverse (h i)]
    show ((tables i).get? name).or _ = _
    cases (tables i).get? name <;> rfl

/-- A value under a name is found if names stand in the table once. -/
theorem get?_eq_some_iff {table : SymbolTable α} (h : table.names.Nodup) {name : String}
    {value : α} :
    table.get? name = some value ↔ (name, value) ∈ table.entries := by
  refine ⟨mem_of_get?, fun hmem => ?_⟩
  obtain ⟨entries⟩ := table
  change entries.lookup name = some value
  change (name, value) ∈ entries at hmem
  change (entries.map Prod.fst).Nodup at h
  induction entries with
  | nil => cases hmem
  | cons entry rest ih =>
    obtain ⟨hnot, hrest⟩ := List.nodup_cons.mp h
    rw [List.lookup_cons]
    rcases List.mem_cons.mp hmem with rfl | hmem
    · rw [beq_self_eq_true]
    · have hne : name ≠ entry.1 := by
        rintro rfl
        exact hnot (List.mem_map.mpr ⟨_, hmem, rfl⟩)
      rw [beq_false_of_ne hne]
      exact ih hmem hrest

end SymbolTable

/-! ## The blocks around an offset -/

mutual

/-- The spans of the blocks of a statement, in the order in which they start. -/
def Statement.blockSpans : Statement → List Span
  | .block node body => node.span :: blockSpansOf body
  | _ => []

/-- The spans of the blocks of statements, in the order in which they start. -/
def blockSpansOf : List Statement → List Span
  | [] => []
  | first :: rest => first.blockSpans ++ blockSpansOf rest

end

/-- Each of the scopes stands inside the one before it, and the first one inside given scopes. -/
def Ladder (enclosing : List ScopeId) : List BlockScope → Prop
  | [] => True
  | block :: rest => block.enclosing = enclosing ∧ Ladder (block.id :: enclosing) rest

/-- The scopes whose spans contain an offset. -/
def blocksAt (offset : Nat) (blocks : List BlockScope) : List BlockScope :=
  blocks.filter fun block => block.span.contains offset

/-- A block is among those at an offset when its span contains it. -/
theorem blocksAt_cons (offset : Nat) (block : BlockScope) (rest : List BlockScope) :
    blocksAt offset (block :: rest) =
      if block.span.contains offset then block :: blocksAt offset rest else blocksAt offset rest :=
  List.filter_cons

/-- The blocks at an offset among some and others are those of the first and then of the others. -/
theorem blocksAt_append (offset : Nat) (blocks rest : List BlockScope) :
    blocksAt offset (blocks ++ rest) = blocksAt offset blocks ++ blocksAt offset rest :=
  List.filter_append _ _

section Blocks

variable {offset : Nat}

mutual

/-- The scopes that a statement opens have the spans of its blocks. -/
theorem Statement.blocks_spans (statement : Statement) (enclosing : List ScopeId) (next : Nat) :
    (statement.blocks enclosing next).map BlockScope.span = statement.blockSpans := by
  cases statement with
  | block node body =>
    rw [Statement.blocks, Statement.blockSpans, List.map_cons, blocksOf_spans body]
  | _ => rfl

/-- The scopes that statements open have the spans of their blocks. -/
theorem blocksOf_spans (list : List Statement) (enclosing : List ScopeId) (next : Nat) :
    (blocksOf enclosing next list).map BlockScope.span = blockSpansOf list := by
  cases list with
  | nil => rfl
  | cons first rest =>
    rw [blocksOf, blockSpansOf, List.map_append, first.blocks_spans, blocksOf_spans rest]

end

mutual

/-- Blocks stand inside other scopes. -/
theorem Statement.blocks_enclosed (statement : Statement) {enclosing : List ScopeId}
    (h : enclosing ≠ []) (next : Nat) :
    ∀ block ∈ statement.blocks enclosing next, block.enclosing ≠ [] := by
  cases statement with
  | block node body =>
    exact List.forall_mem_cons.mpr ⟨h, blocksOf_enclosed body (List.cons_ne_nil _ _) _⟩
  | _ => exact nofun

/-- The blocks in a scope stand inside of some scope. -/
theorem blocksOf_enclosed (list : List Statement) {enclosing : List ScopeId} (h : enclosing ≠ [])
    (next : Nat) : ∀ block ∈ blocksOf enclosing next list, block.enclosing ≠ [] := by
  cases list with
  | nil => exact nofun
  | cons first rest =>
    exact List.forall_mem_append.mpr ⟨first.blocks_enclosed h next, blocksOf_enclosed rest h _⟩

end

mutual

/-- Blocks contain no offset beyond the offsets between which they stand. -/
theorem Statement.blocksAt_outside {low high : Nat} (statement : Statement)
    (h : statement.Nests low high) (houtside : offset < low ∨ high ≤ offset)
    (enclosing : List ScopeId) (next : Nat) :
    blocksAt offset (statement.blocks enclosing next) = [] := by
  cases statement with
  | block node body =>
    obtain ⟨hlow, hbody, hhigh⟩ := h
    have hnot : ¬node.span.contains offset = true := by
      simp only [Span.contains, Bool.and_eq_true, decide_eq_true_eq]
      omega
    rw [Statement.blocks, blocksAt_cons, if_neg hnot]
    exact blocksAt_outside body hbody (by omega) _ _
  | _ => rfl

/-- At an offset outside of statements there is none of their blocks. -/
theorem blocksAt_outside {low high : Nat} (list : List Statement) (h : nestsAll low high list)
    (houtside : offset < low ∨ high ≤ offset) (enclosing : List ScopeId) (next : Nat) :
    blocksAt offset (blocksOf enclosing next list) = [] := by
  cases list with
  | nil => rfl
  | cons first rest =>
    obtain ⟨middle, hfirst, hrest⟩ := h
    have hone : nestsAll low middle [first] := ⟨middle, hfirst, Nat.le_refl _⟩
    have hle := nestsAll_le hone
    have hle' := nestsAll_le hrest
    rw [blocksOf, blocksAt_append, List.append_eq_nil_iff]
    exact ⟨first.blocksAt_outside hfirst (by omega) _ _, blocksAt_outside rest hrest (by omega) _ _⟩

end

mutual

/-- At an offset, the blocks of a statement stand inside each other. -/
theorem Statement.blocksAt_ladder {low high : Nat} (statement : Statement)
    (h : statement.Nests low high) (enclosing : List ScopeId) (next : Nat) :
    Ladder enclosing (blocksAt offset (statement.blocks enclosing next)) := by
  cases statement with
  | block node body =>
    obtain ⟨-, hbody, -⟩ := h
    rw [Statement.blocks, blocksAt_cons]
    by_cases hcontains : node.span.contains offset = true
    · rw [if_pos hcontains]
      exact ⟨rfl, blocksAt_ladder body hbody _ _⟩
    · rw [if_neg hcontains]
      -- what the block does not contain, no block in it contains
      have houtside : offset < node.span.start ∨ node.span.stop ≤ offset := by
        simp only [Span.contains, Bool.and_eq_true, decide_eq_true_eq] at hcontains
        omega
      rw [blocksAt_outside body hbody houtside]
      trivial
  | _ => trivial

/-- The blocks that contain an offset stand inside each other. -/
theorem blocksAt_ladder {low high : Nat} (list : List Statement) (h : nestsAll low high list)
    (enclosing : List ScopeId) (next : Nat) :
    Ladder enclosing (blocksAt offset (blocksOf enclosing next list)) := by
  cases list with
  | nil => trivial
  | cons first rest =>
    obtain ⟨middle, hfirst, hrest⟩ := h
    rw [blocksOf, blocksAt_append]
    -- blocks before and after the offset between two statements do not both contain the offset
    rcases Nat.lt_or_ge offset middle with hbefore | hafter
    · rw [blocksAt_outside rest hrest (.inl hbefore), List.append_nil]
      exact first.blocksAt_ladder hfirst _ _
    · rw [first.blocksAt_outside hfirst (.inr hafter), List.nil_append]
      exact blocksAt_ladder rest hrest _ _

end

end Blocks

/-- The last scope and those around it are all the scopes, innermost first. -/
theorem Ladder.reverse_eq {enclosing : List ScopeId} {blocks : List BlockScope}
    (h : Ladder enclosing blocks) {last : BlockScope} (hlast : blocks.getLast? = some last) :
    last.id :: last.enclosing = (blocks.map BlockScope.id).reverse ++ enclosing := by
  induction blocks generalizing enclosing with
  | nil => cases hlast
  | cons block rest ih =>
    obtain ⟨henclosing, hrest⟩ := h
    rw [List.map_cons, List.reverse_cons, List.append_assoc, List.singleton_append]
    cases rest with
    | nil =>
      obtain rfl := Option.some.inj hlast
      exact congrArg (_ :: ·) henclosing
    | cons next others =>
      rw [List.getLast?_cons_cons] at hlast
      exact ih hrest hlast

/-- Scopes that stand inside each other are a chain. -/
theorem Ladder.isChain {outer : ScopeId} {enclosing : List ScopeId} {blocks : List BlockScope}
    {program : Program} (h : Ladder (outer :: enclosing) blocks)
    (hheld : ∀ block ∈ blocks, program.HasBlock block) :
    List.IsChain (fun outer inner => (program.scope inner).enclosing.head? = some outer)
      (outer :: blocks.map BlockScope.id) := by
  induction blocks generalizing outer enclosing with
  | nil => exact .singleton outer
  | cons block rest ih =>
    obtain ⟨henclosing, hrest⟩ := h
    obtain ⟨hfirst, hothers⟩ := List.forall_mem_cons.mp hheld
    refine .cons_cons ?_ (ih hrest hothers)
    rw [hfirst.enclosing, henclosing]
    rfl

/-! ## Scopes and names at a location -/

namespace Program

variable {program later : Program} {file : FileId} {length offset : Nat}
  {opened blocks : List BlockScope} {top : ScopeId}

/-- A file of a length has scopes. -/
structure Opens (program : Program) (file : FileId) (length : Nat) (opened : List BlockScope) :
    Prop where
  listed : (program.file? file).map (fun info => (info.length, info.scopes)) =
    some (length, opened.map BlockScope.id)
  held : ∀ block ∈ opened, program.HasBlock block

/-- The scopes of a file stay as they are in a program that has grown. -/
theorem Opens.mono (h : program.Opens file length opened) (hgrows : program.Grows later) :
    later.Opens file length opened where
  listed := by
    obtain ⟨info, hinfo, heq⟩ := Option.map_eq_some_iff.mp h.listed
    rw [show later.file? file = some info from hgrows.files.of_some hinfo, Option.map_some, heq]
  held block hblock := by
    obtain ⟨scope, hscope, hkept⟩ := h.held block hblock
    exact ⟨scope, hgrows.scopes.of_some hscope, hkept⟩

/-- A compiled file has a scope of its own and the scopes of its blocks. -/
theorem Compiled.add_opens (h : program.Compiled) {tree : SourceFile} {text : List Char}
    (hplaced : ∀ statement ∈ tree.statements, statement.Placed text) :
    (program.add tree).2.Opens ⟨program.files.size⟩ tree.node.span.stop
      (program.openedBy tree) where
  listed := by
    obtain ⟨hgoesOn, -, -⟩ := h.resolvedIn hplaced
    have hfiles : (program.add tree).2.file? ⟨program.files.size⟩ =
        (program.boundIn tree).2.file? ⟨program.files.size⟩ :=
      congrArg (·[program.files.size]?) hgoesOn.files
    have hempty : (program.withFile tree).file? ⟨program.files.size⟩ =
        some ⟨tree.name, tree.node.span.stop, [], []⟩ := Array.getElem?_push_size
    rw [hfiles, (program.boundIn_binds tree).1.listed, hempty]
    rfl
  held block hblock := by
    obtain ⟨hgoesOn, -, -⟩ := h.resolvedIn hplaced
    obtain ⟨scope, hscope, henclosing, hspan⟩ := (program.boundIn_binds tree).1.held block hblock
    obtain ⟨later, hlater, hkeeps⟩ := hgoesOn.scopes _ _ hscope
    exact ⟨later, hlater, hkeeps.enclosing.trans henclosing, hkeeps.span.trans hspan⟩

/-- The scopes at a location are that of the file, unless the location is past its end, and those of
the blocks that contain it. -/
theorem Opens.scopesAt (h : program.Opens file length (⟨top, [], ⟨0, length⟩⟩ :: blocks))
    (hblocks : ∀ block ∈ blocks, block.enclosing ≠ []) (offset : Nat) :
    program.scopesAt ⟨file, offset⟩ =
      (if offset ≤ length then [top] else []) ++ (blocksAt offset blocks).map BlockScope.id := by
  obtain ⟨info, hinfo, heq⟩ := Option.map_eq_some_iff.mp h.listed
  obtain ⟨-, hscopes⟩ := Prod.mk.inj heq
  obtain ⟨htop, hheld⟩ := List.forall_mem_cons.mp h.held
  have hfile : program.files[file.index]? = some info := hinfo
  have hcovers : (program.scope top).covers offset = decide (offset ≤ length) := by
    rw [Scope.covers, htop.enclosing, htop.span]
    simp [Span.containsInclusive]
  have hinner : ∀ block ∈ blocks,
      (program.scope block.id).covers offset = block.span.contains offset := by
    intro block hblock
    rw [Scope.covers, (hheld block hblock).enclosing, (hheld block hblock).span, if_neg]
    rw [List.isEmpty_iff]
    exact hblocks block hblock
  unfold Program.scopesAt
  rw [hfile]
  simp only
  rw [hscopes, List.map_cons, List.filter_cons, hcovers, List.filter_map]
  have hfilter : blocks.filter ((fun id => (program.scope id).covers offset) ∘ BlockScope.id) =
      blocksAt offset blocks := List.filter_congr hinner
  rw [hfilter]
  by_cases hoffset : offset ≤ length
  · rw [if_pos hoffset, if_pos (decide_eq_true hoffset)]
    rfl
  · rw [if_neg hoffset, if_neg (by simpa using hoffset)]
    rfl

/-- A name is visible at a location with the value that it has in the innermost scope that has
it. -/
theorem Sorted.visibleAt (h : program.Sorted) (location : Location) (name : String) :
    (program.visibleAt location).get? name =
      (program.scopesAt location).reverse.findSome? fun id => (program.scope id).values.get? name :=
  SymbolTable.get?_ofList_flatMap (fun id => (program.scope id).values) h.once _ name

/-- The names of what is visible at a location are those in the scopes there, from the inside out
and each once. -/
theorem names_visibleAt (program : Program) (location : Location) :
    (program.visibleAt location).names =
      ((program.scopesAt location).flatMap
        fun id => (program.scope id).values.names).eraseDups := by
  rw [Program.visibleAt, SymbolTable.names_ofList, List.map_flatMap]
  rfl

/-- What is visible under a name has that name. -/
theorem Sorted.name_of_visibleAt (h : program.Sorted) (location : Location) :
    ∀ entry ∈ (program.visibleAt location).entries, (program.symbol entry.2).name = entry.1 := by
  intro entry hentry
  have hnodup : (program.visibleAt location).names.Nodup := by
    rw [names_visibleAt]
    exact nodup_eraseDups _
  have hget : (program.visibleAt location).get? entry.1 = some entry.2 :=
    (SymbolTable.get?_eq_some_iff hnodup).mpr hentry
  rw [h.visibleAt] at hget
  obtain ⟨scope, -, hfound⟩ := List.exists_of_findSome?_eq_some hget
  change (program.scope scope).get? (.value entry.1) = some entry.2 at hfound
  obtain ⟨symbol, hsymbol, hname, -⟩ := h.named hfound
  obtain ⟨-, rfl⟩ := HasSymbol.of_symbol? hsymbol
  exact hname

/-- The names of the symbols at a location are those in the scopes there, from the inside out and
each once. -/
theorem Sorted.names_symbolsAt (h : program.Sorted) (location : Location) :
    (program.symbolsAt location).map (fun id => (program.symbol id).name) =
      ((program.scopesAt location).flatMap
        fun id => (program.scope id).values.names).eraseDups := by
  rw [← names_visibleAt]
  show ((program.visibleAt location).entries.map Prod.snd).map _ =
    (program.visibleAt location).entries.map Prod.fst
  rw [List.map_map]
  exact List.map_congr_left fun entry hentry => h.name_of_visibleAt location entry hentry

/-- The values that are visible at a location are those that their names lead to. -/
theorem Sorted.mem_symbolsAt (h : program.Sorted) (location : Location) (name : String)
    (id : SymbolId) :
    id ∈ program.symbolsAt location ∧ (program.symbol id).name = name ↔
      (program.scopesAt location).reverse.findSome?
        (fun scope => (program.scope scope).values.get? name) = some id := by
  have hnodup : (program.visibleAt location).names.Nodup := by
    rw [names_visibleAt]
    exact nodup_eraseDups _
  rw [← h.visibleAt, SymbolTable.get?_eq_some_iff hnodup]
  constructor
  · rintro ⟨hmem, rfl⟩
    obtain ⟨entry, hentry, rfl⟩ := List.mem_map.mp hmem
    rw [h.name_of_visibleAt location entry hentry]
    exact hentry
  · intro hmem
    exact ⟨List.mem_map.mpr ⟨_, hmem, rfl⟩, h.name_of_visibleAt location _ hmem⟩

/-- A text that was compiled among others has a scope of its own and the scopes of its blocks. -/
theorem ofTexts_opens (before : List (String × String)) (name text : String)
    (after : List (String × String)) :
    ∃ top next, (ofTexts (before ++ (name, text) :: after)).Opens ⟨before.length⟩ text.length
      (⟨top, [], ⟨0, text.length⟩⟩ ::
        blocksOf [top] next (SourceFile.parse name text).tree.statements) := by
  obtain ⟨hcompiled, hsize⟩ := ofTexts_compiled before
  obtain ⟨hadded, -⟩ := hcompiled.addText (name, text)
  obtain ⟨-, hgrows, -⟩ := hadded.addTexts after
  have hopens := (hcompiled.add_opens (SourceFile.parse_placed name text).1).mono hgrows
  have hspan := (SourceFile.parse_nests name text).1
  unfold openedBy at hopens
  rw [hspan, hsize] at hopens
  rw [ofTexts_append]
  exact ⟨_, _, hopens⟩

/-- The scopes around a location of a compiled text, which may have errors, are the scope of the
file and those of the blocks that contain the location, each standing in the one before it. Past the
end of the text there are none. What is visible there under a name is what is found from the
innermost scope, and names come once, in the order in which the scopes have them. -/
theorem scopesAt_lexical (before : List (String × String)) (name text : String)
    (after : List (String × String)) (offset : Nat) :
    let program := ofTexts (before ++ (name, text) :: after)
    let location : Location := ⟨⟨before.length⟩, offset⟩
    let blocks := blockSpansOf (SourceFile.parse name text).tree.statements
    (text.length < offset →
      program.scopesAt location = [] ∧ program.symbolsAt location = []) ∧
    (offset ≤ text.length → ∃ top rest innermost,
      program.scopesAt location = top :: rest ∧
      (program.file? location.file).bind (fun info => info.scopes.head?) = some top ∧
      (program.scope top).enclosing = [] ∧
      (top :: rest).IsChain
        (fun outer inner => (program.scope inner).enclosing.head? = some outer) ∧
      (top :: rest).map (fun id => (program.scope id).span) =
        ⟨0, text.length⟩ :: blocks.filter (fun span => span.contains offset) ∧
      (top :: rest).getLast? = some innermost ∧
      (∀ name id, id ∈ program.symbolsAt location ∧ (program.symbol id).name = name ↔
        program.resolveValue? innermost name = some id) ∧
      (program.symbolsAt location).map (fun id => (program.symbol id).name) =
        ((top :: rest).flatMap fun id => (program.scope id).values.names).eraseDups ∧
      ((program.symbolsAt location).map fun id => (program.symbol id).name).Nodup) := by
  intro program location spans
  obtain ⟨top, next, hopens⟩ := ofTexts_opens before name text after
  obtain ⟨⟨-, -, hsorted, -⟩, -⟩ := ofTexts_compiled (before ++ (name, text) :: after)
  let statements := (SourceFile.parse name text).tree.statements
  have hnests := (SourceFile.parse_nests name text).2
  have henclosed := blocksOf_enclosed statements (List.cons_ne_nil top []) next
  have hscopes := hopens.scopesAt henclosed offset
  have houtside : text.length ≤ offset → blocksAt offset (blocksOf [top] next statements) = [] :=
    fun hle => blocksAt_outside statements hnests (.inr hle) [top] next
  constructor
  · intro hpast
    rw [if_neg (Nat.not_le_of_lt hpast), houtside (Nat.le_of_lt hpast)] at hscopes
    refine ⟨hscopes, ?_⟩
    show (SymbolTable.ofList ((program.scopesAt location).flatMap _)).values = []
    rw [hscopes]
    rfl
  intro hwithin
  rw [if_pos hwithin] at hscopes
  let inner := blocksAt offset (blocksOf [top] next statements)
  have hladder : Ladder [top] inner := blocksAt_ladder statements hnests [top] next
  obtain ⟨htop, hheld⟩ := List.forall_mem_cons.mp hopens.held
  have hinner : ∀ block ∈ inner, program.HasBlock block :=
    fun block hblock => hheld block (List.mem_filter.mp hblock).1
  -- the file and the blocks around the location, outermost first
  let chain : List BlockScope := ⟨top, [], ⟨0, text.length⟩⟩ :: inner
  have hchain : program.scopesAt location = chain.map BlockScope.id := hscopes
  obtain ⟨last, hlast⟩ : ∃ last, chain.getLast? = some last :=
    ⟨_, List.getLast?_eq_some_getLast (List.cons_ne_nil _ _)⟩
  have hlastHeld : program.HasBlock last := by
    rcases List.mem_cons.mp (List.mem_of_getLast? hlast) with rfl | hmem
    · exact htop
    · exact hinner last hmem
  have houtward : program.outward last.id = (program.scopesAt location).reverse := by
    have hchainLadder : Ladder [] chain := ⟨rfl, hladder⟩
    have hreverse := hchainLadder.reverse_eq hlast
    rw [Program.outward, hlastHeld.enclosing, hreverse, List.append_nil, hchain]
  refine ⟨top, inner.map BlockScope.id, last.id, hscopes, ?_, htop.enclosing,
    hladder.isChain hinner, ?_, ?_, ?_, ?_, ?_⟩
  · obtain ⟨info, hinfo, heq⟩ := Option.map_eq_some_iff.mp hopens.listed
    obtain ⟨-, hlisted⟩ := Prod.mk.inj heq
    rw [show program.file? location.file = some info from hinfo, Option.bind_some, hlisted]
    rfl
  · rw [List.map_cons, htop.span, List.map_map]
    congr 1
    have hspans := blocksOf_spans statements [top] next
    show inner.map _ = (blockSpansOf statements).filter _
    rw [← hspans, List.filter_map]
    exact List.map_congr_left fun block hblock => (hinner block hblock).span
  · show (chain.map BlockScope.id).getLast? = _
    rw [List.getLast?_map, hlast]
    rfl
  · intro name id
    rw [hsorted.mem_symbolsAt, Program.resolveValue?, houtward]
  · rw [hsorted.names_symbolsAt, hscopes]
    rfl
  · rw [hsorted.names_symbolsAt]
    exact nodup_eraseDups _

/-- In a text that ends inside of two blocks the inner name hides the outer one at its place. -/
theorem scopesAt_lexical_unclosed :
    let program := ofTexts [("first", "let c;"), ("second", "let a; \x7b let b; \x7b let a;")]
    20 ≤ "let a; \x7b let b; \x7b let a;".length ∧
      (program.scopesAt ⟨⟨1⟩, 20⟩).map (fun id => (program.scope id).span) =
        [⟨0, 24⟩, ⟨7, 24⟩, ⟨16, 24⟩] ∧
      ((program.symbolsAt ⟨⟨1⟩, 20⟩).map fun id => (program.symbol id).name).Nodup ∧
      ∃ innermost, (program.scopesAt ⟨⟨1⟩, 20⟩).getLast? = some innermost ∧
        ∀ id, id ∈ program.symbolsAt ⟨⟨1⟩, 20⟩ ∧ (program.symbol id).name = "a" ↔
          program.resolveValue? innermost "a" = some id := by
  intro program
  have hwithin : 20 ≤ "let a; \x7b let b; \x7b let a;".length := by decide
  obtain ⟨top, rest, innermost, hscopes, -, -, -, hspans, hlast, hfound, -, honce⟩ :=
    (scopesAt_lexical [("first", "let c;")] "second" "let a; \x7b let b; \x7b let a;" [] 20).2
      hwithin
  have hblocks : (blockSpansOf
      (SourceFile.parse "second" "let a; \x7b let b; \x7b let a;").tree.statements).filter
      (fun span => span.contains 20) = [⟨7, 24⟩, ⟨16, 24⟩] := by decide +kernel
  change program.scopesAt ⟨⟨1⟩, 20⟩ = top :: rest at hscopes
  change (top :: rest).map (fun id => (program.scope id).span) = _ at hspans
  refine ⟨hwithin, ?_, honce, innermost, ?_, hfound "a"⟩
  · rw [hscopes, hspans, hblocks]
    rfl
  · rw [hscopes]
    exact hlast

end Program

end ExpressionTyping
