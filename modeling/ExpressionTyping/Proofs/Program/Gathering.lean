import ExpressionTyping.Proofs.Program.Settling

/-!
# Members under construction

The members of a type are gathered one by one, and each becomes a symbol at once. The first
signature of a method makes a type of its own for it, which gets the later ones, and whatever the
annotations between them ask for is resolved in the meantime. Nothing refers to these types before
all members are gathered.

`ResolveState.Gathering` is the invariant: the members so far are what was gathered of them, the
types of methods among them are new, and everything else is as it would be without them, which is
what the veil over them says. When the members are complete, the veil over their types is lifted
(`Guarded.GathersMembers.ends`).
-/

set_option autoImplicit false

namespace ExpressionTyping

/-- The symbol that is a member. Methods have types from a list. -/
def Reading.OwnMemberIs (r : Reading) (own : List TypeId) : MemberDraft → SymbolId → Prop
  | .property type, id => r.symbols id .property type
  | .method signatures, id => ∃ type ∈ own, r.symbols id .method type ∧
      r.types.get type = .object none .empty signatures

/-- What a member is it still is in a later reading, and with more types for methods. -/
theorem Reading.OwnMemberIs.mono {r later : Reading} {own more : List TypeId}
    {draft : MemberDraft} {id : SymbolId} (hmember : r.OwnMemberIs own draft id)
    (h : r.Extends later) (hown : own ⊆ more) : later.OwnMemberIs more draft id := by
  cases draft with
  | property type => exact h.symbols _ _ _ hmember
  | method signatures =>
    obtain ⟨type, hmem, hsymbol, htype⟩ := hmember
    exact ⟨type, hown hmem, h.symbols _ _ _ hsymbol,
      TypeTable.get_of_endures h.types nofun nofun htype⟩

namespace TypeTable

variable {table : TypeTable} {id : TypeId} {veiled : List TypeId}

/-- A signature that is added to a type behind the veil does not show. -/
theorem veil_addSignature (table : TypeTable) (signature : Signature) (hid : id ∈ veiled) :
    (table.addSignature id signature).veil veiled = table.veil veiled := by
  refine veil_eq Array.size_modify fun other hother => getElem?_updateObject_of_ne ?_ _
  rintro rfl
  exact hother hid

/-- Objects with nothing but signatures stay so with more of them. -/
theorem AreCallable.addSignature (h : table.AreCallable veiled) (id : TypeId)
    (signature : Signature) : (table.addSignature id signature).AreCallable veiled := by
  intro other hother
  obtain ⟨signatures, hentry⟩ := h other hother
  by_cases heq : other = id
  · subst heq
    exact ⟨_, get_updateObject hentry _⟩
  · exact ⟨signatures, (getElem?_updateObject_of_ne heq _).trans hentry⟩

end TypeTable

/-- A method that is not gathered yet is gathered with its first signature. -/
theorem MemberDraft.addMethod_of_ne {drafts : SymbolTable MemberDraft} {name : String}
    (h : ∀ signatures, drafts.get? name ≠ some (.method signatures)) (signature : Signature) :
    MemberDraft.addMethod drafts name signature = drafts.insert name (.method [signature]) := by
  unfold MemberDraft.addMethod
  split
  · exact absurd ‹_› (h _)
  · rfl

/-- What was kept is kept when a later type gets a signature. -/
theorem Kept.addSignature {entries : Array TypeData} {table : TypeTable} {id : TypeId}
    (h : Kept entries table.entries) (hid : entries.size ≤ id.index) (signature : Signature) :
    Kept entries (table.addSignature id signature).entries := by
  intro i hi
  have hne : (⟨i⟩ : TypeId) ≠ id := by
    rintro rfl
    exact absurd hi (Nat.not_lt_of_le hid)
  exact (TypeTable.getElem?_updateObject_of_ne hne _).trans (h i hi)

/-- A veil over a type that is not there yet hides nothing. -/
theorem Reading.veil_cons_of_le {r : Reading} {id : TypeId} (h : r.types.entries.size ≤ id.index)
    (veiled : List TypeId) : r.veil (id :: veiled) = r.veil veiled :=
  congrArg (fun types => { r with types }) (TypeTable.veil_cons_of_le h veiled)

/-- A step in no discipline. -/
def Discipline.free (σ : Type) : Discipline σ where
  inv _ := True
  rel _ _ := True
  refl _ := trivial
  trans _ _ := trivial

/-- A step in a discipline is a step whose discipline is part of what it ends with. -/
theorem Ends.free {σ α : Type} {d : Discipline σ} {q : Guarded σ α} {s : σ} {Q : α → σ → Prop}
    (h : Ends d q s Q) (hs : d.inv s) :
    Ends (.free σ) q s fun a s' => d.inv s' ∧ d.rel s s' ∧ Q a s' :=
  fun a s' hrun _ => ⟨trivial, trivial, h a s' hrun hs⟩

/-- A step is one in a discipline if that is part of what it ends with. -/
theorem Ends.of_free {σ α : Type} {d : Discipline σ} {q : Guarded σ α} {s : σ} {Q : α → σ → Prop}
    (h : d.inv s → Ends (.free σ) q s fun a s' => d.inv s' ∧ d.rel s s' ∧ Q a s') : Ends d q s Q :=
  fun a s' hrun hs => (h hs a s' hrun trivial).2.2

namespace ResolveState

/-- The state after a method got one more signature. -/
def addSignature (s : ResolveState) (type : TypeId) (signature : Signature) : ResolveState :=
  { s with program := { s.program with types := s.program.types.addSignature type signature } }

/-- The state after a method was listed for the first time. -/
def pushMethod (s : ResolveState) (location : Location) (name : String) (signature : Signature) :
    ResolveState :=
  { s with program := s.program.pushMethod location name signature }

/-- Members of a type are being gathered since a state: these are the ones so far, some types are
their own, and behind a veil over these all is in order. -/
structure Gathering (file : FileId) (pending : Pending) (values : Prop) (active : List SymbolId)
    (veiled : List TypeId) (base : ResolveState) (own : List TypeId)
    (drafts : SymbolTable MemberDraft) (members : SymbolTable SymbolId) (s : ResolveState) :
    Prop where
  signs : base.Signs file pending values active (own ++ veiled) s
  orderly : s.Orderly pending (own ++ veiled)
  fresh : ∀ id ∈ own, base.program.types.entries.size ≤ id.index
  names : s.program.Names members
  once : members.names.Nodup
  members : drafts.Pairs ((s.reading file pending active).OwnMemberIs own) members

variable {file : FileId} {pending : Pending} {values : Prop} {active : List SymbolId}
  {own veiled : List TypeId} {base s s' : ResolveState} {drafts : SymbolTable MemberDraft}
  {members : SymbolTable SymbolId}

/-- Types that look the same behind veils are read alike. -/
theorem readingWith_withTypes (file : FileId) (left : SymbolId → Prop) {types : TypeTable}
    {veiled' : List TypeId} (hveil : types.veil veiled' = s.program.types.veil veiled) :
    (ResolveState.readingWith file pending left
        { s with program := { s.program with types } }).veil veiled' =
      (s.readingWith file pending left).veil veiled := by
  have hreading : (ResolveState.readingWith file pending left
      { s with program := { s.program with types } }).veil veiled' =
        { (s.readingWith file pending left).veil veiled with types := types.veil veiled' } := rfl
  rw [hreading, hveil]
  rfl

/-- Another table of types, or another veil over it, changes nothing that was signed, if what was
read behind the old one can still be read. -/
theorem Signs.withTypes (h : base.Signs file pending values active veiled s) (types : TypeTable)
    {veiled' : List TypeId} (hreaches : s.program.types.Reaches types)
    (hkept : Kept base.program.types.entries types.entries)
    (htidy : s.program.Tidy → Program.Tidy { s.program with types })
    (hextends : ∀ left, ((s.readingWith file pending left).veil veiled).Extends
      ((ResolveState.readingWith file pending left
        { s with program := { s.program with types } }).veil veiled')) :
    base.Signs file pending values active veiled'
      { s with program := { s.program with types } } :=
  { h with
    reaches := h.reaches.trans hreaches
    types := hkept.holds
    tidy := fun hs => htidy (h.tidy hs)
    kept := hkept
    signed := fun id hid => (h.signed id hid).imp_right fun hsigned =>
      hsigned.mono hsigned.1 rfl (hextends _)
    given := fun id hid => (h.given id hid).imp_right fun hgiven =>
      hgiven.mono hgiven.1 rfl (hextends _) }

/-- What was signed behind a veil is signed behind one over fewer types. -/
theorem Signs.unveil (h : base.Signs file pending values active veiled s)
    (hcallable : s.program.types.AreCallable veiled) {fewer : List TypeId}
    (hfewer : ∀ id ∈ fewer, id ∈ veiled) : base.Signs file pending values active fewer s :=
  h.withTypes s.program.types .refl h.kept id fun _ => Reading.unveil hcallable hfewer

/-- What was signed is signed behind a veil over a type that is not there yet. -/
theorem Signs.veil_cons (h : base.Signs file pending values active veiled s) {id : TypeId}
    (hid : s.program.types.entries.size ≤ id.index) :
    base.Signs file pending values active (id :: veiled) s := by
  refine h.withTypes s.program.types .refl h.kept (fun hs => hs) fun left => ?_
  rw [Reading.veil_cons_of_le hid veiled]
  exact .refl _

namespace Gathering

/-- At the start there are no members. -/
theorem start (hs : s.Orderly pending veiled) :
    s.Gathering file pending values active veiled [] .empty .empty s where
  signs := .refl s
  orderly := hs
  fresh _ hid := absurd hid List.not_mem_nil
  names := .empty s.program
  once := List.nodup_nil
  members := List.Forall₂.nil

variable (h : base.Gathering file pending values active veiled own drafts members s)
include h

/-- Gathering waits while something else is resolved. -/
theorem on (hsigns : s.Signs file pending values active (own ++ veiled) s')
    (hs' : s'.Orderly pending (own ++ veiled)) :
    base.Gathering file pending values active veiled own drafts members s' where
  signs := h.signs.trans hsigns
  orderly := hs'
  fresh := h.fresh
  names := h.names.mono hsigns.symbols
  once := h.once
  members := h.members.imp fun _ _ hmember =>
    hmember.mono (hsigns.readingWith file _) (List.Subset.refl own)

/-- The types of methods are not among those that the veil was over before. -/
theorem not_veiled {id : TypeId} (hid : id ∈ own) (hs : base.Orderly pending veiled) :
    id ∉ veiled := by
  intro hmem
  obtain ⟨signatures, hentry⟩ := hs.callable id hmem
  exact absurd (Array.getElem?_eq_some_iff.mp hentry).1 (Nat.not_lt_of_le (h.fresh id hid))

/-- When all members are gathered they are seen without the veil over their types. -/
theorem membersAre (hs : base.Orderly pending veiled) :
    ((s.reading file pending active).veil veiled).MembersAre drafts members := by
  refine h.members.imp fun draft id hmember => ?_
  cases draft with
  | property type => exact hmember
  | method signatures =>
    obtain ⟨type, hmem, hsymbol, htype⟩ := hmember
    refine ⟨type, hsymbol, ?_⟩
    rw [← htype]
    exact TypeTable.get_congr (TypeTable.getElem?_veil_of_notMem (h.not_veiled hmem hs))

/-- What was gathered of a method among the members, whose type is their own. -/
theorem get?_of_method {name : String} {id : SymbolId} {symbol : Symbol}
    (hid : members.get? name = some id) (hsymbol : s.program.symbol? id = some symbol)
    (hsort : symbol.sort = .method) :
    ∃ signatures, drafts.get? name = some (.method signatures) ∧ symbol.type ∈ own ∧
      (s.reading file pending active).symbols id .method symbol.type ∧
      s.program.types.entries[symbol.type.index]? = some (.object none .empty signatures) := by
  have hfound := h.members.get? name
  rw [hid] at hfound
  cases hdraft : drafts.get? name with
  | none =>
    rw [hdraft] at hfound
    cases hfound
  | some draft =>
    rw [hdraft] at hfound
    cases hfound with | some hmember => ?_
    cases draft with
    | property type =>
      obtain ⟨-, other, hother, hproperty, -⟩ := hmember
      cases hsymbol.symm.trans hother
      cases hsort.symm.trans hproperty
    | method signatures =>
      obtain ⟨type, hmem, ⟨hsettled, other, hother, hmethod, htype⟩, hget⟩ := hmember
      cases hsymbol.symm.trans hother
      subst htype
      exact ⟨signatures, rfl, hmem, ⟨hsettled, symbol, hother, hmethod, rfl⟩,
        TypeTable.entries_of_get hget nofun⟩

/-- A member under another name than a method has another type if it is a method, too. -/
theorem type_ne {name : String} {id : SymbolId} {symbol : Symbol}
    (hid : members.get? name = some id) (hsymbol : s.program.symbol? id = some symbol)
    (hsort : symbol.sort = .method) {entry : String × SymbolId} (hentry : entry ∈ members.entries)
    (hne : entry.1 ≠ name) {type : TypeId}
    (htype : (s.reading file pending active).symbols entry.2 .method type) :
    type ≠ symbol.type := by
  rintro rfl
  obtain ⟨-, other, hother, hmethod, heq⟩ := htype
  have hsame : entry.2 = id := h.orderly.tidy.apart hother hsymbol (hmethod ▸ rfl) (hsort ▸ rfl) heq
  -- both stand under the name of that symbol
  obtain ⟨_, hfirst, hname⟩ := h.names entry hentry
  obtain ⟨_, hsecond, hname'⟩ := h.names (name, id) (SymbolTable.mem_of_get? hid)
  rw [hsame] at hfirst
  cases hfirst.symm.trans hsecond
  exact hne (hname.symm.trans hname')

/-- One more signature changes what is gathered of its method, and of no other member. -/
theorem members_addSignature {name : String} {id : SymbolId} {symbol : Symbol}
    (hid : members.get? name = some id) (hsymbol : s.program.symbol? id = some symbol)
    (hsort : symbol.sort = .method) (signature : Signature) :
    (MemberDraft.addMethod drafts name signature).Pairs
      (((s.addSignature symbol.type signature).reading file pending active).OwnMemberIs own)
      members := by
  obtain ⟨signatures, hdraft, hmem, hmethod, hentry⟩ := h.get?_of_method hid hsymbol hsort
  rw [MemberDraft.addMethod, hdraft]
  refine h.members.replace h.once hid ⟨symbol.type, hmem, hmethod, ?_⟩ ?_
  · exact TypeTable.get_of_entries (TypeTable.get_updateObject hentry _)
  intro entry hlisted hne draft hmember
  cases draft with
  | property type => exact hmember
  | method others =>
    obtain ⟨type, hown, hother, hget⟩ := hmember
    have hdifferent := h.type_ne hid hsymbol hsort hlisted hne hother
    refine ⟨type, hown, hother, ?_⟩
    rw [← hget]
    exact TypeTable.get_congr (TypeTable.getElem?_updateObject_of_ne hdifferent _)

/-- What was gathered under the name of a member that is no method is none, either. -/
theorem get?_of_not_method {name : String}
    (hnone : ∀ id, members.get? name = some id →
      ∃ symbol, s.program.symbol? id = some symbol ∧ symbol.sort ≠ .method)
    (signatures : List Signature) : drafts.get? name ≠ some (.method signatures) := by
  intro hdraft
  have hfound := h.members.get? name
  rw [hdraft] at hfound
  cases hid : members.get? name with
  | none =>
    rw [hid] at hfound
    cases hfound
  | some id =>
    rw [hid] at hfound
    cases hfound with | some hmember => ?_
    obtain ⟨symbol, hsymbol, hsort⟩ := hnone id hid
    obtain ⟨type, -, ⟨-, other, hother, hmethod, -⟩, -⟩ := hmember
    cases hsymbol.symm.trans hother
    exact hsort hmethod

end Gathering

end ResolveState

namespace Guarded

variable {file : FileId} {pending : Pending} {values : Prop} {active : List SymbolId}
  {own veiled : List TypeId} {base s : ResolveState} {drafts : SymbolTable MemberDraft}
  {members : SymbolTable SymbolId}

/-- A step goes on gathering: what was gathered before it is turned into what is gathered after it,
and what could be read can still be read. -/
def GoesOnGathering (file : FileId) (pending : Pending) (values : Prop) (active : List SymbolId)
    (veiled : List TypeId) (base : ResolveState) (own : List TypeId) (s : ResolveState)
    (Q : Reading → SymbolTable MemberDraft → Prop)
    (q : Guarded ResolveState (SymbolTable SymbolId)) : Prop :=
  Ends (.free ResolveState) q s fun members s' => ∃ own' drafts',
    base.Gathering file pending values active veiled own' drafts' members s' ∧
      ((s.reading file pending active).veil (own ++ veiled)).Extends
        ((s'.reading file pending active).veil (own' ++ veiled)) ∧
      Q ((s'.reading file pending active).veil (own' ++ veiled)) drafts'

/-- While something else is resolved, gathering waits. -/
theorem gathering_ends {α : Type} {q : Guarded ResolveState α} {P : α → ResolveState → Prop}
    (h : base.Gathering file pending values active veiled own drafts members s)
    (hq : Ends (.signing file pending values active (own ++ veiled)) q s P) :
    Ends (.free ResolveState) q s fun a s' =>
      base.Gathering file pending values active veiled own drafts members s' ∧
        ((s.reading file pending active).veil (own ++ veiled)).Extends
          ((s'.reading file pending active).veil (own ++ veiled)) ∧ P a s' :=
  (hq.free h.orderly).mono fun _ _ _ _ ⟨hs', hsigns, hP⟩ =>
    ⟨h.on hsigns hs', hsigns.veiledWith file _, hP⟩

/-- A property is one more member. -/
theorem addProperty_ends
    (h : base.Gathering file pending values active veiled own drafts members s)
    (location : Location) (name : String) (type : TypeId) :
    GoesOnGathering file pending values active veiled base own s
      (fun _ drafts' => drafts' = drafts.insert name (.property type))
      (compile (addMember members location name .property type)) := by
  have hsort : ¬SymbolSort.property.ownsType = true := Bool.false_ne_true
  have hadded := addMember_ends (s := s.program) file members location name hsort type
  refine (gathering_ends h (compile_ends hadded)).mono ?_
  rintro _ s' - - ⟨hon, hextends, ⟨id, rfl, hmember, symbol, hsymbol, hname⟩, hadds⟩
  refine ⟨own, _, ?_, hextends, rfl⟩
  exact
    { hon with
      names := SymbolTable.forall_entries_insert hon.names ⟨symbol, hsymbol, hname⟩
      once := SymbolTable.names_insert_nodup h.once name id
      members := hon.members.insert name (hadds.symbols _ _ _ hmember) }

/-- A method that is listed again gets one more signature. -/
theorem addSignature_gathers
    (h : base.Gathering file pending values active veiled own drafts members s) {name : String}
    {id : SymbolId} {symbol : Symbol} (hid : members.get? name = some id)
    (hsymbol : s.program.symbol? id = some symbol) (hsort : symbol.sort = .method)
    (signature : Signature) :
    base.Gathering file pending values active veiled own
        (MemberDraft.addMethod drafts name signature) members
        (s.addSignature symbol.type signature) ∧
      ((s.reading file pending active).veil (own ++ veiled)).Extends
        (((s.addSignature symbol.type signature).reading file pending active).veil
          (own ++ veiled)) := by
  obtain ⟨signatures, -, hmem, -, hentry⟩ := h.get?_of_method hid hsymbol hsort
  -- the type is behind the veil, so nothing is read differently
  have hextends (left : SymbolId → Prop) :
      ((s.readingWith file pending left).veil (own ++ veiled)).Extends
        (((s.addSignature symbol.type signature).readingWith file pending left).veil
          (own ++ veiled)) := by
    have hveil := s.program.types.veil_addSignature signature (List.mem_append_left veiled hmem)
    rw [ResolveState.addSignature, ResolveState.readingWith_withTypes file left hveil]
    exact .refl _
  have htidy (hs : s.program.Tidy) : (s.addSignature symbol.type signature).program.Tidy :=
    hs.addSignature hentry rfl rfl
  have hgoesOn : s.GoesOn (s.addSignature symbol.type signature) :=
    (s.program.addSignature_enlarged symbol.type signature).goesOn (List.Subset.refl _)
  refine ⟨?_, hextends _⟩
  exact
    { signs := h.signs.withTypes _ (.single (.addSignature symbol.type signature))
        (h.signs.kept.addSignature (h.fresh _ hmem) signature) htidy hextends
      orderly := ⟨hgoesOn.sorted h.orderly.sorted, htidy h.orderly.tidy,
        h.orderly.callable.addSignature symbol.type signature⟩
      fresh := h.fresh
      names := h.names
      once := h.once
      members := h.members_addSignature hid hsymbol hsort signature }

/-- A method that is listed for the first time gets a type of its own. -/
theorem pushMethod_gathers
    (h : base.Gathering file pending values active veiled own drafts members s) (name : String)
    (hnone : ∀ id, members.get? name = some id →
      ∃ symbol, s.program.symbol? id = some symbol ∧ symbol.sort ≠ .method)
    (location : Location) (signature : Signature) :
    base.Gathering file pending values active veiled (⟨s.program.types.entries.size⟩ :: own)
        (MemberDraft.addMethod drafts name signature)
        (members.insert name ⟨s.program.symbols.size⟩) (s.pushMethod location name signature) ∧
      ((s.reading file pending active).veil (own ++ veiled)).Extends
        (((s.pushMethod location name signature).reading file pending active).veil
          (⟨s.program.types.entries.size⟩ :: own ++ veiled)) := by
  let s' := s.pushMethod location name signature
  have hsigns (veiled : List TypeId) : s.Signs file pending values active veiled s' :=
    grown_signs (s.program.pushMethod_grown location name signature)
  have hentry : s'.program.types.entries[s.program.types.entries.size]? =
      some (.object none .empty [signature]) := Array.getElem?_push_size
  have hsymbol : s'.program.symbol? ⟨s.program.symbols.size⟩ =
      some ⟨name, .method, [location], ⟨s.program.types.entries.size⟩⟩ :=
    Array.getElem?_push_size
  have hadds : (s'.program.added file s.program.symbols.size).Extends
      (s'.reading file pending active) := added_extends h.orderly.sorted s'.program
  have hon := h.on (hsigns (own ++ veiled)) ((hsigns []).orderly h.orderly)
  constructor
  · rw [MemberDraft.addMethod_of_ne (h.get?_of_not_method hnone)]
    exact
      { signs := (h.signs.veil_cons (Nat.le_refl _)).trans (hsigns _)
        orderly := ⟨hon.orderly.sorted, hon.orderly.tidy,
          List.forall_mem_cons.mpr ⟨⟨_, hentry⟩, hon.orderly.callable⟩⟩
        fresh := List.forall_mem_cons.mpr ⟨h.signs.types.size_le, h.fresh⟩
        names := SymbolTable.forall_entries_insert hon.names ⟨_, hsymbol, rfl⟩
        once := SymbolTable.names_insert_nodup h.once name _
        members := by
          refine (hon.members.imp fun _ _ hmember =>
            hmember.mono (.refl _) (List.subset_cons_self _ _)).insert name ?_
          exact ⟨_, List.mem_cons_self, hadds.symbols _ _ _ ⟨Nat.le_refl _, _, hsymbol, rfl, rfl⟩,
            TypeTable.get_of_entries hentry⟩ }
  · -- the new type was behind no veil before, but nothing stood there
    have hhidden : (s.reading file pending active).veil
        (⟨s.program.types.entries.size⟩ :: (own ++ veiled)) =
          (s.reading file pending active).veil (own ++ veiled) :=
      Reading.veil_cons_of_le (Nat.le_refl _) _
    rw [← hhidden]
    exact (hsigns []).veiledWith file _

/-- A method is one more signature of the method of its name, or one more member. -/
theorem addMethod_ends
    (h : base.Gathering file pending values active veiled own drafts members s)
    (location : Location) (name : String) (signature : Signature) :
    GoesOnGathering file pending values active veiled base own s
      (fun _ drafts' => drafts' = MemberDraft.addMethod drafts name signature)
      (compile (addMethod members location name signature)) := by
  intro members' s' hrun _
  rw [compile_run] at hrun
  obtain ⟨⟨_, program⟩, hadd, heq⟩ := Option.bind_eq_some_iff.mp hrun
  cases heq
  refine ⟨trivial, trivial, ?_⟩
  rcases addMethod_run hadd with ⟨type, hfound, rfl, rfl⟩ | ⟨hfound, rfl, rfl⟩
  · rcases Program.methodOf?_cases hfound with ⟨id, symbol, hid, hsymbol, hsort, heq⟩ | ⟨heq, -⟩
    · cases heq
      obtain ⟨hgathers, hextends⟩ := addSignature_gathers h hid hsymbol hsort signature
      exact ⟨own, _, hgathers, hextends, rfl⟩
    · cases heq
  · rcases Program.methodOf?_cases hfound with ⟨_, _, _, _, _, heq⟩ | ⟨-, hnone⟩
    · cases heq
    · obtain ⟨hgathers, hextends⟩ := pushMethod_gathers h name hnone location signature
      exact ⟨_, _, hgathers, hextends, rfl⟩

/-- A step that gathers members goes on from any that are being gathered. -/
def GathersMembers (file : FileId) (pending : Pending) (values : Prop) (active : List SymbolId)
    (q : SymbolTable SymbolId → Guarded ResolveState (SymbolTable SymbolId))
    (Q : Reading → SymbolTable MemberDraft → SymbolTable MemberDraft → Prop) : Prop :=
  ∀ ⦃veiled own : List TypeId⦄ ⦃base s : ResolveState⦄ ⦃drafts : SymbolTable MemberDraft⦄
    ⦃members : SymbolTable SymbolId⦄,
    base.Gathering file pending values active veiled own drafts members s →
      GoesOnGathering file pending values active veiled base own s (Q · drafts) (q members)

namespace GathersMembers

variable {q q' : SymbolTable SymbolId → Guarded ResolveState (SymbolTable SymbolId)}
  {P Q R : Reading → SymbolTable MemberDraft → SymbolTable MemberDraft → Prop}

/-- What gathered members are turned into may be stated weaker. -/
theorem imp (h : GathersMembers file pending values active q P)
    (hPQ : ∀ {r : Reading} {drafts drafts' : SymbolTable MemberDraft},
      P r drafts drafts' → Q r drafts drafts') :
    GathersMembers file pending values active q Q :=
  fun _ _ _ _ _ _ hgathering => (h hgathering).mono
    fun _ _ _ _ ⟨own', drafts', hgathering', hextends, hP⟩ =>
      ⟨own', drafts', hgathering', hextends, hPQ hP⟩

/-- Steps that gather members one after the other gather them together. -/
theorem bind (h : GathersMembers file pending values active q P)
    (h' : GathersMembers file pending values active q' Q)
    (hPQ : ∀ {r later : Reading} {drafts drafts' drafts'' : SymbolTable MemberDraft},
      r.Extends later → P r drafts drafts' → Q later drafts' drafts'' → R later drafts drafts'') :
    GathersMembers file pending values active (fun members => q members >>= q') R := by
  intro veiled own base s drafts members hgathering
  refine (h hgathering).bind ?_
  rintro members₁ s₁ - - ⟨own₁, drafts₁, hgathering₁, hextends₁, hP⟩
  refine (h' hgathering₁).mono ?_
  rintro members₂ s₂ - - ⟨own₂, drafts₂, hgathering₂, hextends₂, hQ⟩
  exact ⟨own₂, drafts₂, hgathering₂, hextends₁.trans hextends₂, hPQ hextends₂ hP hQ⟩

/-- What gathers members gathers all those of a type, which has them in its table. -/
theorem ends (h : GathersMembers file pending values active q Q)
    (hQ : ∀ {r later : Reading} {drafts drafts' : SymbolTable MemberDraft},
      r.Extends later → Q r drafts drafts' → Q later drafts drafts')
    (veiled : List TypeId) (s : ResolveState) :
    Ends (.signing file pending values active veiled) (q .empty) s fun members s' =>
      s'.program.Names members ∧ ∃ drafts,
        Q ((s'.reading file pending active).veil veiled) .empty drafts ∧
          ((s'.reading file pending active).veil veiled).MembersAre drafts members := by
  refine .of_free fun hs => (h (.start hs)).mono ?_
  rintro members s' - - ⟨own, drafts, hgathering, -, hgathers⟩
  have hfewer : ∀ id ∈ veiled, id ∈ own ++ veiled := fun _ => List.mem_append_right own
  have hcallable := hgathering.orderly.callable
  have hsigns := hgathering.signs.unveil hcallable hfewer
  exact ⟨hsigns.orderly hs, hsigns, hgathering.names, drafts,
    hQ (Reading.unveil hcallable hfewer) hgathers, hgathering.membersAre hs⟩

end GathersMembers

end Guarded

end ExpressionTyping
