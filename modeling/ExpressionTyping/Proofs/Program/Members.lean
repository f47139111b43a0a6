import ExpressionTyping.Proofs.Program.Scoping

/-!
# Members of object types

What the members of an object type are can be read off the elements that it is written with: those
of one type literal, or those of all declarations of an interface one after the other. There is one
member for each name that occurs, in the order in which the names first occur (`listedNames`). What
it is depends on the elements of its name only. If the last of them is a property, so is the member,
and the others do not count. If it is a method, the member has one signature for each of the methods
after the last property (`MemberDraft.Follows`).

Resolution gathers members element by element. `Gathered` says that this has been right so far, and
one more element keeps it (`Gathered.add`). The symbols that gathered members become are the
properties of the type (`Program.Tidy.hasMembers`).
-/

set_option autoImplicit false

namespace ExpressionTyping

/-! ## What elements say -/

namespace TypeElement

/-- Whether an element is a method. -/
def isMethod : TypeElement → Bool
  | .property _ _ _ => false
  | .method _ _ _ _ => true

/-- Whether an element has a name. A missing name is none. -/
def hasName (name : String) (element : TypeElement) : Bool :=
  !element.name.isMissing && element.name.text == name

/-- A method has a signature by its parameters and its result. -/
inductive HasSignature (r : Reading) (scope : ScopeId) : TypeElement → Signature → Prop where
  | method {node : Node} {name : Identifier} {parameters : List Parameter}
      {result : Option TypeNode} {signature : Signature}
      (h : signature.Means r scope parameters result) :
      HasSignature r scope (.method node name parameters result) signature

end TypeElement

/-- The names of elements, each once, in the order in which they first occur. -/
def listedNames (elements : List TypeElement) : List String :=
  ((elements.filter fun element => !element.name.isMissing).map (·.name.text)).eraseDups

/-- What becomes of the elements of one name. -/
inductive MemberDraft.Follows (r : Reading) (scope : ScopeId) :
    List TypeElement → MemberDraft → Prop where
  /-- If the last one is a property, it gives its type; without an annotation it is `any`. -/
  | property {earlier : List TypeElement} {node : Node} {name : Identifier}
      {type? : Option TypeNode} {type : TypeId} (h : OptionalType.Means r scope type? type) :
      Follows r scope (earlier ++ [.property node name type?]) (.property type)
  /-- If the last one is a method, the methods after the last property give their signatures. -/
  | method {earlier methods : List TypeElement} {signatures : List Signature}
      (hearlier : ∀ last, earlier.getLast? = some last → last.isMethod = false)
      (hmethods : methods ≠ [])
      (h : List.Forall₂ (TypeElement.HasSignature r scope) methods signatures) :
      Follows r scope (earlier ++ methods) (.method signatures)

/-- The properties of a type are the members that elements list: one for each name, in order of
first occurrence, which is what becomes of the elements of that name. -/
def Program.HasMembers (program : Program) (r : Reading) (scope : ScopeId)
    (elements : List TypeElement) (type : TypeId) : Prop :=
  List.Forall₂
    (fun name id => (program.symbol id).name = name ∧ ∃ draft : MemberDraft,
      draft.Follows r scope (elements.filter (TypeElement.hasName name)) ∧ r.MemberIs draft id)
    (listedNames elements) (program.properties type)

/-! ## Gathering -/

section Gathering

variable {r : Reading} {scope : ScopeId} {done elements : List TypeElement} {element : TypeElement}
  {drafts drafts' : SymbolTable MemberDraft} {name : String}

/-- A name is listed exactly if some member has it. -/
theorem mem_listedNames :
    name ∈ listedNames elements ↔ elements.filter (TypeElement.hasName name) ≠ [] := by
  rw [listedNames, List.mem_eraseDups, List.mem_map, Ne, List.filter_eq_nil_iff]
  simp [TypeElement.hasName, and_assoc]

/-- A member without a name lists nothing. -/
theorem listedNames_missing (h : element.name.isMissing = true) :
    listedNames (done ++ [element]) = listedNames done := by
  simp [listedNames, h]

/-- One more element adds its name if that is new. -/
theorem listedNames_append (h : ¬element.name.isMissing = true) :
    listedNames (done ++ [element]) =
      if element.name.text ∈ listedNames done then listedNames done
      else listedNames done ++ [element.name.text] := by
  have hnamed : (!element.name.isMissing) = true := by simpa using h
  simp only [listedNames, List.filter_append, List.map_append, List.filter_singleton, hnamed,
    cond_true, List.map_singleton, List.mem_eraseDups, eraseDups_concat]

/-- No name is listed twice. -/
theorem listedNames_nodup (elements : List TypeElement) : (listedNames elements).Nodup :=
  nodup_eraseDups _

/-- Some elements have been gathered: there is a member for each name, and it is what becomes of the
elements of that name. -/
structure Gathered (r : Reading) (scope : ScopeId) (elements : List TypeElement)
    (drafts : SymbolTable MemberDraft) : Prop where
  names : drafts.names = listedNames elements
  follows : ∀ name draft, drafts.get? name = some draft →
    draft.Follows r scope (elements.filter (TypeElement.hasName name))

namespace Gathered

/-- No members gather nothing. -/
theorem empty : Gathered r scope [] .empty :=
  ⟨rfl, nofun⟩

variable (h : Gathered r scope done drafts)
include h

/-- A name without a member did not occur. -/
theorem filter_eq_nil (hnone : drafts.get? name = none) :
    done.filter (TypeElement.hasName name) = [] := by
  by_contra hne
  have hmem : name ∈ drafts.names := h.names ▸ mem_listedNames.mpr hne
  obtain ⟨entry, hentry, rfl⟩ := List.mem_map.mp hmem
  have hne := List.lookup_eq_none_iff.mp hnone entry hentry
  simp at hne

/-- The member of a name is what becomes of its elements, of which there is one more. -/
theorem insert (element : TypeElement) (hname : ¬element.name.isMissing = true)
    {draft : MemberDraft} (hdraft : draft.Follows r scope
      (done.filter (TypeElement.hasName element.name.text) ++ [element])) :
    Gathered r scope (done ++ [element]) (drafts.insert element.name.text draft) where
  names := by
    rw [SymbolTable.names_insert, h.names, listedNames_append hname]
  follows name found hfound := by
    rw [SymbolTable.get?_insert] at hfound
    rw [List.filter_append, List.filter_singleton]
    split at hfound
    · rename_i heq
      subst heq
      have hown : element.hasName element.name.text = true := by
        simpa [TypeElement.hasName] using hname
      rw [hown, cond_true]
      exact Option.some.inj hfound ▸ hdraft
    · have hother : element.hasName name = false := by
        simp [TypeElement.hasName, Ne.symm ‹¬name = element.name.text›]
      rw [hother, cond_false, List.append_nil]
      exact h.follows name found hfound

/-- A method adds to a method of its name. It takes the place of a property, or of nothing. -/
theorem addMethod (element : TypeElement) (hname : ¬element.name.isMissing = true)
    {signature : Signature} (hsignature : element.HasSignature r scope signature) :
    Gathered r scope (done ++ [element])
      (MemberDraft.addMethod drafts element.name.text signature) := by
  have hsignatures : List.Forall₂ (TypeElement.HasSignature r scope) [element] [signature] :=
    .cons hsignature .nil
  have hfollows := h.follows element.name.text
  have hnil : drafts.get? element.name.text = none →
      done.filter (TypeElement.hasName element.name.text) = [] := h.filter_eq_nil
  unfold MemberDraft.addMethod
  split
  · rename_i signatures hfound
    refine h.insert element hname ?_
    replace hfollows := hfollows _ hfound
    generalize done.filter (TypeElement.hasName element.name.text) = named at hfollows
    cases hfollows with
    | method hearlier hmethods hbefore =>
      rw [List.append_assoc]
      exact .method hearlier (List.append_ne_nil_of_left_ne_nil hmethods _)
        (List.rel_append hbefore hsignatures)
  · rename_i hnone
    refine h.insert element hname (.method (fun last hlast => ?_) (List.cons_ne_nil _ _)
      hsignatures)
    cases hfound : drafts.get? element.name.text with
    | none =>
      rw [hnil hfound] at hlast
      cases hlast
    | some draft =>
      replace hfollows := hfollows draft hfound
      generalize done.filter (TypeElement.hasName element.name.text) = named at hfollows hlast
      cases hfollows with
      | property =>
        rw [List.getLast?_concat] at hlast
        exact Option.some.inj hlast ▸ rfl
      | method => exact absurd hfound (hnone _)

/-- One more element is gathered. -/
theorem add (hgathers : element.Gathers r scope drafts drafts') :
    Gathered r scope (done ++ [element]) drafts' := by
  cases hgathers with
  | missing hname =>
    refine ⟨h.names.trans (listedNames_missing hname).symm, fun name draft hdraft => ?_⟩
    have hother : element.hasName name = false := by simp [TypeElement.hasName, hname]
    rw [List.filter_append, List.filter_singleton, hother, cond_false, List.append_nil]
    exact h.follows name draft hdraft
  | @property node name type? type _ hname htype =>
    exact h.insert (.property node name type?) hname (.property htype)
  | @method node name parameters result _ _ _ _ hname hparameters hresult =>
    exact h.addMethod (.method node name parameters result) hname (.method ⟨hparameters, hresult⟩)

/-- More elements are gathered. -/
theorem addAll (hgather : TypeElements.Gather r scope elements drafts drafts') :
    Gathered r scope (done ++ elements) drafts' := by
  induction elements generalizing done drafts with
  | nil =>
    cases hgather
    rw [List.append_nil]
    exact h
  | cons first rest ih =>
    cases hgather with
    | cons hfirst hrest =>
      rw [List.append_cons]
      exact ih (h.add hfirst) hrest

end Gathered

end Gathering

/-- Elements that stand after others are gathered after them. -/
theorem TypeElements.Gather.append {r : Reading} {scope : ScopeId} {elements : List TypeElement}
    {drafts drafts' drafts'' : SymbolTable MemberDraft} {more : List TypeElement}
    (h : TypeElements.Gather r scope elements drafts drafts')
    (h' : TypeElements.Gather r scope more drafts' drafts'') :
    TypeElements.Gather r scope (elements ++ more) drafts drafts'' := by
  induction elements generalizing drafts with
  | nil =>
    cases h
    exact h'
  | cons first rest ih =>
    cases h with
    | cons hfirst hrest => exact .cons hfirst (ih hrest)

/-- Declarations of an interface in one scope add what they list together. -/
theorem Declarations.Gather.flatten {r : Reading} {scope : ScopeId}
    {lists : List (List TypeElement)} {drafts drafts' : SymbolTable MemberDraft}
    (h : Declarations.Gather r (lists.map (.interface scope)) drafts drafts') :
    TypeElements.Gather r scope lists.flatten drafts drafts' := by
  induction lists generalizing drafts with
  | nil =>
    cases h
    exact .nil
  | cons first rest ih =>
    cases h with
    | interface hfirst hrest => exact hfirst.append (ih hrest)
    | other hother => cases hother

/-! ## Types with members -/

namespace Program

variable {program : Program} {r : Reading} {scope : ScopeId} {elements : List TypeElement}
  {drafts : SymbolTable MemberDraft} {members : SymbolTable SymbolId} {type : TypeId}

/-- An object type has the members that were gathered for it. -/
theorem Tidy.hasMembers (h : program.Tidy)
    (hgather : TypeElements.Gather r scope elements .empty drafts)
    (hmembers : r.MembersAre drafts members) {name? : Option String} {signatures : List Signature}
    (hobject : program.types.get type = .object name? members signatures) :
    program.HasMembers r scope elements type := by
  have hnames : program.Names members := by
    have hentry := TypeTable.entries_of_get hobject nofun
    exact h.lists _ (Array.mem_of_getElem? hentry)
  have hgathered := Gathered.empty.addAll hgather
  rw [List.nil_append] at hgathered
  have honce : drafts.names.Nodup := hgathered.names ▸ listedNames_nodup elements
  have hproperties : program.properties type = members.values := by
    rw [properties, hobject]
  rw [HasMembers, hproperties, ← hgathered.names]
  refine List.forall₂_map_left_iff.mpr (List.forall₂_map_right_iff.mpr ?_)
  refine List.forall₂_iff_zip.mpr ⟨hmembers.length_eq, fun {entry listed} hmem => ?_⟩
  obtain ⟨hname, hmember⟩ := List.forall₂_zip hmembers hmem
  obtain ⟨hentry, hlisted⟩ := List.of_mem_zip hmem
  obtain ⟨symbol, hsymbol, hsame⟩ := hnames listed hlisted
  obtain ⟨-, rfl⟩ := HasSymbol.of_symbol? hsymbol
  refine ⟨hsame.trans hname, entry.2, ?_, hmember⟩
  exact hgathered.follows _ _ ((SymbolTable.get?_eq_some_iff honce).mpr hentry)

/-- A type literal means a type with the members that it lists. -/
theorem Tidy.literal_hasMembers (h : program.Tidy) (htypes : r.types = program.types) {node : Node}
    (hmeans : TypeNode.Means r scope (.object node elements) type) :
    program.HasMembers r scope elements type := by
  cases hmeans with
  | object hgather hmembers hobject => exact h.hasMembers hgather hmembers (htypes ▸ hobject)

end Program

end ExpressionTyping
