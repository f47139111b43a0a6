import ExpressionTyping.Proofs.Program.Denotation
import ExpressionTyping.Proofs.Program.SafeResolution

/-!
# Where steps end

`Ends` is about steps with look-ups that fail: if such a step does not fail, it keeps the invariant
of a discipline, follows its relation, and a condition holds of its result and of the state it ends
in. That it does not fail is shown elsewhere, so what was looked up may be taken to be there.

While annotations are resolved a program is only added to: types, symbols of members and issues
(`Program.Grown`). That is the discipline of most steps here. A method that is listed again gets one
more signature (`Guarded.addMethod_run`), which changes a type and adds nothing else
(`Program.Enlarged`).
-/

set_option autoImplicit false

namespace ExpressionTyping

section Ends

variable {σ α β : Type} {d : Discipline σ}

/-- A step that does not fail stays in the discipline and ends with a condition. -/
def Ends (d : Discipline σ) (q : Guarded σ α) (s : σ) (Q : α → σ → Prop) : Prop :=
  ∀ a s', q.run s = some (a, s') → d.inv s → d.inv s' ∧ d.rel s s' ∧ Q a s'

namespace Ends

variable {q : Guarded σ α} {s : σ} {P Q : α → σ → Prop}

/-- A result at hand ends in the state it is taken in. -/
theorem pure {a : α} (h : Q a s) : Ends d (Pure.pure a) s Q := by
  rintro _ _ ⟨⟩ hinv
  exact ⟨hinv, d.refl s, h⟩

/-- Steps that end well one after the other end well together. -/
theorem bind {f : α → Guarded σ β} {R : β → σ → Prop} (h : Ends d q s P)
    (hnext : ∀ a s', d.inv s' → d.rel s s' → P a s' → Ends d (f a) s' R) :
    Ends d (q >>= f) s R := by
  intro b s'' hrun hinv
  rw [StateT.run_bind] at hrun
  obtain ⟨⟨a, s'⟩, hfirst, hsecond⟩ := Option.bind_eq_some_iff.mp hrun
  obtain ⟨hinv', hrel, hP⟩ := h a s' hfirst hinv
  obtain ⟨hinv'', hrel', hR⟩ := hnext a s' hinv' hrel hP b s'' hsecond hinv'
  exact ⟨hinv'', d.trans hrel hrel', hR⟩

/-- What a step ends with may be stated weaker. -/
theorem mono (h : Ends d q s P) (himp : ∀ a s', d.inv s' → d.rel s s' → P a s' → Q a s') :
    Ends d q s Q := by
  intro a s' hrun hinv
  obtain ⟨hinv', hrel, hP⟩ := h a s' hrun hinv
  exact ⟨hinv', hrel, himp a s' hinv' hrel hP⟩

/-- The invariant may be used to show where a step ends. -/
theorem of_inv (h : d.inv s → Ends d q s Q) : Ends d q s Q :=
  fun a s' hrun hinv => h hinv a s' hrun hinv

/-- A step that never fails. -/
theorem step {p : StateM σ α}
    (h : d.inv s → d.inv (p.run s).2 ∧ d.rel s (p.run s).2 ∧ Q (p.run s).1 (p.run s).2) :
    Ends d (Guarded.step p) s Q := by
  intro a s' hrun hinv
  have hend : p.run s = (a, s') := Option.some.inj hrun
  rw [hend] at h
  exact h hinv

/-- Reading the state gives it and changes nothing. -/
theorem get : Ends d MonadState.get s fun a s' => a = s ∧ s' = s := by
  rintro _ _ ⟨⟩ hinv
  exact ⟨hinv, d.refl s, rfl, rfl⟩

/-- What was looked up is there. -/
theorem found {γ : Type} {o : Option γ} {f : γ → Guarded σ α}
    (h : ∀ c, o = some c → Ends d (f c) s Q) : Ends d (liftM o >>= f) s Q := by
  cases o with
  | none =>
    intro a s' hrun
    cases hrun
  | some c => exact h c rfl

/-- What was looked up is the result. -/
theorem gives {o : Option α} (h : ∀ a, o = some a → Q a s) : Ends d (liftM o) s Q := by
  cases o with
  | none =>
    intro a s' hrun
    cases hrun
  | some a => exact pure (h a rfl)

/-- A choice ends well if both branches do. -/
theorem ite {c : Prop} [Decidable c] {q' : Guarded σ α} (h : c → Ends d q s Q)
    (h' : ¬c → Ends d q' s Q) : Ends d (if c then q else q') s Q := by
  split
  · exact h ‹_›
  · exact h' ‹_›

/-- A loop goes on in the discipline if its rounds do. -/
theorem forM {γ : Type} {f : γ → Guarded σ PUnit} (xs : List γ)
    (h : ∀ x ∈ xs, ∀ s, Ends d (f x) s fun _ _ => True) :
    Ends d (xs.forM f) s fun _ _ => True := by
  induction xs generalizing s with
  | nil => exact pure trivial
  | cons x rest ih =>
    exact (h x List.mem_cons_self s).bind fun _ _ _ _ _ =>
      ih fun y hy => h y (List.mem_cons_of_mem x hy)

/-- A step in one discipline is one in another that asks for less. -/
theorem relax {d' : Discipline σ} (h : Ends d q s P) (hinv : ∀ s, d'.inv s ↔ d.inv s)
    (hrel : ∀ s', d.rel s s' → d'.rel s s') : Ends d' q s P := by
  intro a s' hrun hs
  obtain ⟨hs', hrel', hP⟩ := h a s' hrun ((hinv s).mp hs)
  exact ⟨(hinv s').mpr hs', hrel s' hrel', hP⟩

end Ends

end Ends

/-! ## Programs that are added to -/

/-- A scope keeps its place and its names. -/
structure Scope.KeepsNames (scope later : Scope) : Prop extends Scope.Grows scope later where
  values : later.values = scope.values
  types : later.types = scope.types

/-- A scope keeps its own names. -/
theorem Scope.KeepsNames.refl (scope : Scope) : scope.KeepsNames scope :=
  ⟨.refl scope, rfl, rfl⟩

/-- Keeping names goes on from scope to scope. -/
theorem Scope.KeepsNames.trans {a b c : Scope} (h : a.KeepsNames b) (h' : b.KeepsNames c) :
    a.KeepsNames c :=
  ⟨h.toGrows.trans h'.toGrows, h'.values.trans h.values, h'.types.trans h.types⟩

/-- The name under which a program reports what is wrong in a file. -/
def Program.fileName (program : Program) (file : FileId) : String :=
  (program.files[file.index]?.getD default).name

/-- One program is reached from another by adding symbols and issues, and by steps on its types. -/
structure Program.Enlarged (before after : Program) : Prop where
  reaches : before.types.Reaches after.types
  symbols : Kept before.symbols after.symbols
  scopes : after.scopes = before.scopes
  files : after.files = before.files
  issues : before.issues <+: after.issues

/-- One program is reached from another by adding types, symbols and issues. -/
structure Program.Grown (before after : Program) : Prop extends Enlarged before after where
  types : Kept before.types.entries after.types.entries
  tidy : before.Tidy → after.Tidy
  interfaces : before.KeepsInterfaces after

/-- A program is enlarged from itself. -/
theorem Program.Enlarged.refl (program : Program) : program.Enlarged program :=
  ⟨.refl, fun _ _ => rfl, rfl, rfl, List.prefix_rfl⟩

/-- Enlarging goes on from program to program. -/
theorem Program.Enlarged.trans {a b c : Program} (h : a.Enlarged b) (h' : b.Enlarged c) :
    a.Enlarged c :=
  ⟨h.reaches.trans h'.reaches, h.symbols.trans h'.symbols, h'.scopes.trans h.scopes,
    h'.files.trans h.files, h.issues.trans h'.issues⟩

/-- A program has grown from itself. -/
theorem Program.Grown.refl (program : Program) : program.Grown program :=
  ⟨.refl program, fun _ _ => rfl, id, .refl program⟩

/-- Growing goes on from program to program. -/
theorem Program.Grown.trans {a b c : Program} (h : a.Grown b) (h' : b.Grown c) : a.Grown c :=
  ⟨h.toEnlarged.trans h'.toEnlarged, h.types.trans h'.types, h'.tidy ∘ h.tidy,
    h.interfaces.trans h'.interfaces⟩

/-- The symbols before are still the first ones. -/
theorem Program.Enlarged.grows {before after : Program} (h : before.Enlarged after) :
    Continues Symbol.Grows before.symbols after.symbols :=
  fun _ symbol hsymbol => ⟨symbol, h.symbols.of_some hsymbol, .refl symbol⟩

/-- A symbol there before is unchanged. -/
theorem Program.Enlarged.symbol_eq {before after : Program} (h : before.Enlarged after)
    {id : SymbolId} (hid : before.HasSymbol id) : after.symbol id = before.symbol id :=
  symbol_congr (h.symbols _ hid)

/-- A program is only added to. -/
def Discipline.growing : Discipline Program where
  inv _ := True
  rel := Program.Grown
  refl := .refl
  trans := .trans

/-- What was added to a program from a number of symbols on, as something to read against. -/
def Program.added (program : Program) (file : FileId) (base : Nat) : Reading where
  file
  types := program.types
  symbols id sort type := base ≤ id.index ∧
    ∃ symbol, program.symbol? id = some symbol ∧ symbol.sort = sort ∧ symbol.type = type
  names _ _ _ := False

/-- What is read in a grown program extends what was read before, over the symbols added since. -/
theorem Program.Grown.added {before after : Program} (h : before.Grown after) (file : FileId)
    {base base' : Nat} (hbase : base' ≤ base) :
    (before.added file base).Extends (after.added file base') where
  file := rfl
  types := h.types.holds.endures
  symbols := by
    rintro id sort type ⟨hid, symbol, hsymbol, hkind⟩
    exact ⟨Nat.le_trans hbase hid, symbol, h.symbols.of_some hsymbol, hkind⟩
  names _ _ _ hname := hname

namespace Guarded

variable {s : Program} {file : FileId}

/-- A step on the types that keeps what is there, and adds only objects that list their members by
name. -/
theorem onTypes_ends {f : TypeTable → TypeId × TypeTable} (hreaches : s.types.Reaches (f s.types).2)
    (hkept : Kept s.types.entries (f s.types).2.entries)
    (hlists : ∀ data ∈ (f s.types).2.entries, data ∈ s.types.entries ∨ s.Lists data)
    {Q : TypeId → Program → Prop} (hQ : Q (f s.types).1 { s with types := (f s.types).2 }) :
    Ends .growing (step (Compile.onTypes f)) s Q :=
  .step fun _ => ⟨trivial, ⟨⟨hreaches, fun _ _ => rfl, rfl, rfl, List.prefix_rfl⟩, hkept,
    fun hs => hs.addsTypes hkept hlists rfl, .of_symbols rfl⟩, hQ⟩

/-- A new object has a place of its own, and exactly the data it is made with. -/
theorem addObject_ends (name? : Option String) {members : SymbolTable SymbolId}
    (hmembers : s.Names members) (signatures : List Signature) :
    Ends .growing (step (Compile.addType (.object name? members signatures))) s
      fun id s' => s.types.entries.size ≤ id.index ∧
        s'.types.get id = .object name? members signatures := by
  refine onTypes_ends (.single (.addObject name? members signatures)) (s.types.kept_add _)
    (fun data hdata => ?_) ?_
  · rcases Array.mem_push.mp hdata with hold | rfl
    · exact .inl hold
    · exact .inr hmembers
  · exact ⟨Nat.le_refl _, TypeTable.get_of_entries Array.getElem?_push_size⟩

/-- A type that is shared is no object. -/
theorem mem_share {table : TypeTable} {data : TypeData} (hshared : data.isShared = true)
    (program : Program) :
    ∀ other ∈ (table.share data).2.entries, other ∈ table.entries ∨ program.Lists other := by
  intro other hother
  rcases table.share_cases data with ⟨_, _, heq⟩ | ⟨-, heq⟩
  · rw [heq] at hother
    exact .inl hother
  · rw [heq] at hother
    rcases Array.mem_push.mp hother with hold | rfl
    · exact .inl hold
    · exact .inr (.of_shared hshared)

/-- A shared type has the data it is shared for. -/
theorem get_share (table : TypeTable) (data : TypeData) :
    (table.share data).2.get (table.share data).1 = data := by
  rcases table.share_cases data with ⟨i, hi, heq⟩ | ⟨-, heq⟩
  · rw [heq]
    exact TypeTable.get_of_entries hi
  · rw [heq]
    exact TypeTable.get_of_entries Array.getElem?_push_size

/-- Sharing a type that is no union only adds and gives its data. -/
theorem shareType_ends (data : TypeData) (hshared : data.isShared = true)
    (hflat : ∀ members, data ≠ .union members) :
    Ends .growing (step (Compile.shareType data)) s fun id s' => s'.types.get id = data :=
  onTypes_ends (.single (.share hshared hflat)) (s.types.kept_share data) (mem_share hshared s)
    (get_share s.types data)

/-- What all can be looked up is there. -/
theorem lt_of_getAll? {table : TypeTable} {ids : List TypeId} {all : List TypeData}
    (h : table.getAll? ids = some all) : ∀ id ∈ ids, id.index < table.entries.size := by
  induction ids generalizing all with
  | nil => exact List.forall_mem_nil _
  | cons id rest ih =>
    unfold TypeTable.getAll? at h ih
    rw [List.mapM_cons] at h
    obtain ⟨data, hdata, h⟩ := Option.bind_eq_some_iff.mp h
    obtain ⟨others, hothers, -⟩ := Option.bind_eq_some_iff.mp h
    exact List.forall_mem_cons.mpr ⟨(Array.getElem?_eq_some_iff.mp hdata).1, ih hothers⟩

/-- Making a union only adds and gives what a union of these types is. -/
theorem unionOf_ends (file : FileId) (ids : List TypeId) (base : Nat) :
    Ends .growing (unionOf ids) s fun id s' => (s'.added file base).UnionIs ids id := by
  refine Ends.get.bind ?_
  rintro _ s₁ - - ⟨rfl, rfl⟩
  refine .found fun all hall => ?_
  have hids := lt_of_getAll? hall
  have hkept := s₁.types.kept_unionOf ids
  have hparts : ids.flatMap (s₁.types.unionOf ids).2.constituents =
      ids.flatMap s₁.types.constituents :=
    List.flatMap_congr fun id hid => TypeTable.constituents_kept hkept (hids id hid)
  have hlists : ∀ data ∈ (s₁.types.unionOf ids).2.entries,
      data ∈ s₁.types.entries ∨ s₁.Lists data := by
    rcases s₁.types.unionOf_cases ids with ⟨_, heq⟩ | ⟨-, -, heq⟩
    · rw [heq]
      exact fun _ hdata => .inl hdata
    · rw [heq]
      exact mem_share rfl s₁
  refine onTypes_ends (.single (.unionOf hids)) hkept hlists
    ⟨fun part hpart => Nat.lt_of_lt_of_le (hids part hpart) hkept.size_le, ?_⟩
  show Reading.JoinIs _ (ids.flatMap (s₁.types.unionOf ids).2.constituents).eraseDups _
  rw [hparts]
  unfold TypeTable.unionOf Reading.JoinIs
  generalize (ids.flatMap s₁.types.constituents).eraseDups = members
  by_cases hany : TypeId.any ∈ members
  · have hcontains : members.contains .any = true := List.elem_eq_true_of_mem hany
    simp only [if_pos hany, if_pos hcontains]
  · have hcontains : ¬members.contains .any = true := fun h => hany (List.mem_of_elem_eq_true h)
    simp only [if_neg hany, if_neg hcontains]
    cases members with
    | nil => rfl
    | cons first rest =>
      cases rest with
      | nil => rfl
      | cons second rest => exact get_share s₁.types (.union (first :: second :: rest))

/-! ## Members -/

end Guarded

/-- The program with one more symbol, which is a member of a type. -/
def Program.pushMember (program : Program) (location : Location) (name : String)
    (sort : SymbolSort) (type : TypeId) : Program :=
  { program with symbols := program.symbols.push ⟨name, sort, [location], type⟩ }

/-- The program with one more method, which has one signature. -/
def Program.pushMethod (program : Program) (location : Location) (name : String)
    (signature : Signature) : Program :=
  let data : TypeData := .object none .empty [signature]
  { program with types := (program.types.add data).2 }.pushMember location name .method
    (program.types.add data).1

namespace Program

variable (program : Program) (location : Location) (name : String)

/-- A program with one more member is enlarged. -/
theorem pushMember_enlarged (sort : SymbolSort) (type : TypeId) :
    program.Enlarged (program.pushMember location name sort type) where
  reaches := .refl
  symbols i hi := by
    show (program.symbols.push _)[i]? = _
    rw [Array.getElem?_push, if_neg (Nat.ne_of_lt hi)]
  scopes := rfl
  files := rfl
  issues := List.prefix_rfl

/-- A program with one more member that has no type of its own has grown. -/
theorem pushMember_grown {sort : SymbolSort} (hsort : ¬sort.ownsType = true) (type : TypeId) :
    program.Grown (program.pushMember location name sort type) where
  toEnlarged := program.pushMember_enlarged location name sort type
  types _ _ := rfl
  tidy hs := hs.push _ hsort rfl rfl
  interfaces := by
    refine .push ⟨name, sort, [location], type⟩ ?_ rfl
    rintro rfl
    exact hsort rfl

/-- A program with one more method has grown. -/
theorem pushMethod_grown (signature : Signature) :
    program.Grown (program.pushMethod location name signature) := by
  have hadded : program.Enlarged
      { program with types := (program.types.add (.object none .empty [signature])).2 } :=
    ⟨.single (.addObject none .empty [signature]), fun _ _ => rfl, rfl, rfl, List.prefix_rfl⟩
  exact
    { toEnlarged := hadded.trans (pushMember_enlarged _ location name .method _)
      types := program.types.kept_add _
      tidy := fun hs => hs.pushOwner .method (.empty program) rfl rfl
      interfaces := .push ⟨name, .method, [location], _⟩ nofun rfl }

/-- A method that gets one more signature enlarges a program. -/
theorem addSignature_enlarged (type : TypeId) (signature : Signature) :
    program.Enlarged { program with types := program.types.addSignature type signature } :=
  ⟨.single (.addSignature type signature), fun _ _ => rfl, rfl, rfl, List.prefix_rfl⟩

/-- The new member is a symbol under its name. -/
theorem symbol?_pushMember (sort : SymbolSort) (type : TypeId) :
    (program.pushMember location name sort type).symbol? ⟨program.symbols.size⟩ =
      some ⟨name, sort, [location], type⟩ :=
  Array.getElem?_push_size

/-- The member of a name is a method, with a type, or there is none that is. -/
theorem methodOf?_cases {program : Program} {members : SymbolTable SymbolId} {name : String}
    {found : Option TypeId} (h : program.methodOf? members name = some found) :
    (∃ id symbol, members.get? name = some id ∧ program.symbol? id = some symbol ∧
      symbol.sort = .method ∧ found = some symbol.type) ∨
      found = none ∧ ∀ id, members.get? name = some id →
        ∃ symbol, program.symbol? id = some symbol ∧ symbol.sort ≠ .method := by
  unfold methodOf? at h
  cases hid : members.get? name with
  | none =>
    rw [hid] at h
    exact .inr ⟨(Option.some.inj h).symm, nofun⟩
  | some id =>
    rw [hid] at h
    obtain ⟨symbol, hsymbol, h⟩ := Option.bind_eq_some_iff.mp h
    by_cases hmethod : symbol.sort = .method
    · rw [if_pos hmethod] at h
      exact .inl ⟨id, symbol, rfl, hsymbol, hmethod, (Option.some.inj h).symm⟩
    · rw [if_neg hmethod] at h
      refine .inr ⟨(Option.some.inj h).symm, ?_⟩
      rintro _ ⟨⟩
      exact ⟨symbol, hsymbol, hmethod⟩

end Program

namespace Guarded

variable {s s' : Program} {file : FileId} {members members' : SymbolTable SymbolId}
  {location : Location} {name : String}

/-- A member that is added is one more symbol. -/
theorem addMember_run {sort : SymbolSort} {type : TypeId}
    (hrun : (addMember members location name sort type).run s = some (members', s')) :
    members' = members.insert name ⟨s.symbols.size⟩ ∧
      s' = s.pushMember location name sort type := by
  let added : Symbol := ⟨name, sort, [], type⟩
  let pushed : Program := { s with symbols := s.symbols.push added }
  have hsymbol : pushed.symbol? ⟨s.symbols.size⟩ = some added := Array.getElem?_push_size
  change ((addLocation ⟨s.symbols.size⟩ location).run pushed).bind
      (fun result => some (members.insert name ⟨s.symbols.size⟩, result.2)) = some (members', s')
    at hrun
  simp only [addLocation, updateSymbol, StateT.run_bind, StateT.run_get, pure_bind, hsymbol] at hrun
  obtain ⟨rfl, rfl⟩ := Prod.mk.inj (Option.some.inj hrun)
  refine ⟨rfl, ?_⟩
  show { s with symbols := (s.symbols.push added).modify s.symbols.size _ } = _
  rw [Resolve.modify_push_size]
  rfl

/-- A method that is added is one more signature of the method of its name, or else one more
member. -/
theorem addMethod_run {signature : Signature}
    (hrun : (addMethod members location name signature).run s = some (members', s')) :
    (∃ type, s.methodOf? members name = some (some type) ∧ members' = members ∧
      s' = { s with types := s.types.addSignature type signature }) ∨
      s.methodOf? members name = some none ∧ members' = members.insert name ⟨s.symbols.size⟩ ∧
        s' = s.pushMethod location name signature := by
  simp only [addMethod, StateT.run_bind, StateT.run_get, pure_bind] at hrun
  cases hfound : s.methodOf? members name with
  | none =>
    rw [hfound] at hrun
    cases hrun
  | some found =>
    rw [hfound] at hrun
    cases found with
    | none =>
      obtain ⟨rfl, rfl⟩ := addMember_run hrun
      exact .inr ⟨rfl, rfl, rfl⟩
    | some type =>
      cases hdata : s.types.get? type with
      | none => simp [hdata] at hrun
      | some data =>
        obtain ⟨⟨_, hstep⟩, rfl⟩ : (∃ x, (step (Compile.addSignature type signature)).run s =
            some (x, s')) ∧ members = members' := by simpa [hdata] using hrun
        cases hstep
        exact .inl ⟨type, rfl, rfl, rfl⟩

/-- A member without a type of its own only adds, and stands in the table under its name. -/
theorem addMember_ends (file : FileId) (members : SymbolTable SymbolId) (location : Location)
    (name : String) {sort : SymbolSort} (hsort : ¬sort.ownsType = true) (type : TypeId) :
    Ends .growing (addMember members location name sort type) s fun members' s' =>
      ∃ id, members' = members.insert name id ∧
        (s'.added file s.symbols.size).symbols id sort type ∧
          ∃ symbol, s'.symbol? id = some symbol ∧ symbol.name = name := by
  intro members' s' hrun _
  obtain ⟨rfl, rfl⟩ := addMember_run hrun
  have hsymbol := s.symbol?_pushMember location name sort type
  exact ⟨trivial, s.pushMember_grown location name hsort type, _, rfl,
    ⟨Nat.le_refl _, _, hsymbol, rfl, rfl⟩, _, hsymbol, rfl⟩

/-- A report adds an issue. -/
theorem report_ends (span : Span) (problem : Problem) :
    Ends .growing (report file span problem) s
      fun _ s' => ⟨s.fileName file, ⟨span, problem⟩⟩ ∈ s'.issues := by
  refine Ends.get.bind ?_
  rintro _ _ - - ⟨rfl, rfl⟩
  refine .found fun info _ => .found fun bounds _ => .step fun _ => ⟨trivial, ?_,
    List.mem_append_right _ (List.mem_singleton_self _)⟩
  exact ⟨⟨.refl, fun _ _ => rfl, rfl, rfl, List.prefix_append _ _⟩, fun _ _ => rfl,
    fun hs => hs.same rfl rfl, .of_symbols rfl⟩

end Guarded

end ExpressionTyping
