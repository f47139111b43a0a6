import ExpressionTyping.Proofs.Program.Described
import ExpressionTyping.Proofs.Program.Resolution

/-!
# Every declared name gets the type it is described as

A symbol is resolved when it is first asked for, in the middle of whatever else is being resolved.
Without circles this is never a declaration that is being resolved itself, so each declaration is
looked at once and from start to end, and gives its symbol the type that it is described as
(`symbol_settled`). Interfaces get their members before that, each at once as well
(`interfaceMembers_settled`). At the end all accounts are complete (`everything_settled`).
-/

set_option autoImplicit false

namespace ExpressionTyping

open Relation (TransGen)

/-- Where no value of `f` repeats, only the element itself has its value. -/
theorem filter_eq_singleton {α β : Type} [DecidableEq β] {f : α → β} {list : List α}
    (honce : (list.map f).Nodup) {a : α} (ha : a ∈ list) :
    (list.filter fun b => f b = f a) = [a] := by
  induction list with
  | nil => cases ha
  | cons first rest ih =>
    obtain ⟨hfirst, hrest⟩ := List.nodup_cons.mp honce
    rcases List.mem_cons.mp ha with rfl | ha
    · have hnone : (rest.filter fun b => f b = f a) = [] := by
        rw [List.filter_eq_nil_iff]
        intro b hb heq
        exact hfirst (of_decide_eq_true heq ▸ List.mem_map_of_mem hb)
      rw [List.filter_cons, if_pos (decide_eq_true rfl), hnone]
    · have hne : ¬ decide (f first = f a) = true := by
        intro heq
        exact hfirst (of_decide_eq_true heq ▸ List.mem_map_of_mem ha)
      rw [List.filter_cons, if_neg hne]
      exact ih hrest ha

/-- What binding hands on for a declared name. -/
def Entry.bound (entry : Entry) : Bound :=
  .declaration entry.id entry.declaration

namespace Outlook

variable (outlook : Outlook)

/-- The declarations of the file with their symbols. -/
def pending : Pending :=
  outlook.entries.map fun entry => (entry.id, entry.declaration)

variable {outlook}

/-- A symbol has one declaration. -/
theorem declarationsOf_pending {entry : Entry} (hentry : entry ∈ outlook.entries) :
    outlook.pending.declarationsOf entry.id = [entry.declaration] := by
  unfold Pending.declarationsOf pending
  rw [List.filter_map, List.map_map]
  show ((outlook.entries.filter fun other => other.id = entry.id).map Entry.declaration) = _
  rw [filter_eq_singleton outlook.idsOnce hentry]
  rfl

/-! ## What is around a symbol -/

/-- What is around a symbol that is asked for: the symbols that are being resolved and the
declarations that are being looked at wait for it, interfaces apart, and the limit has room for all
the others. -/
structure Around (outlook : Outlook) (limit : Nat) (active : List SymbolId)
    (held : Key → Option Account) (key : Key) : Prop where
  room : outlook.entries.length < limit + active.length
  once : active.Nodup
  resolving : ∀ id ∈ active, ∃ entry ∈ outlook.entries, entry.id = id ∧
    TransGen (Depends outlook.declared) entry.key key
  looking : ∀ entry ∈ outlook.entries, entry.declaration.isInterface = false →
    (held entry.key).isSome = true → TransGen (Depends outlook.declared) entry.key key
  interfaces : ∀ entry ∈ outlook.entries, entry.declaration.isInterface = true →
    (held entry.key).isSome = true

namespace Around

variable {limit : Nat} {active : List SymbolId} {held : Key → Option Account} {entry : Entry}

/-- No symbol is reached again while it is being resolved. -/
theorem not_active (h : Around outlook limit active held entry.key)
    (hacyclic : ∀ key, ¬ TransGen (Depends outlook.declared) key key)
    (hentry : entry ∈ outlook.entries) : entry.id ∉ active := by
  intro hmem
  obtain ⟨other, hother, hid, hpath⟩ := h.resolving entry.id hmem
  cases Layout.entry_of_id hother hentry hid
  exact hacyclic _ hpath

/-- Nothing but an interface has an account before it is resolved. -/
theorem not_held (h : Around outlook limit active held entry.key)
    (hacyclic : ∀ key, ¬ TransGen (Depends outlook.declared) key key)
    (hentry : entry ∈ outlook.entries) (hinterface : entry.declaration.isInterface = false) :
    held entry.key = none := by
  rw [← Option.not_isSome_iff_eq_none]
  intro hsome
  exact hacyclic _ (h.looking entry hentry hinterface hsome)

/-- There is a step left for every symbol that is reached. -/
theorem limit_pos (h : Around outlook limit active held entry.key)
    (hacyclic : ∀ key, ¬ TransGen (Depends outlook.declared) key key)
    (hentry : entry ∈ outlook.entries) : 0 < limit := by
  have hsubset : (entry.id :: active) ⊆ outlook.entries.map Entry.id := by
    intro id hid
    rcases List.mem_cons.mp hid with rfl | hid
    · exact List.mem_map_of_mem hentry
    · obtain ⟨other, hother, rfl, -⟩ := h.resolving id hid
      exact List.mem_map_of_mem hother
  have hnodup : (entry.id :: active).Nodup :=
    List.nodup_cons.mpr ⟨h.not_active hacyclic hentry, h.once⟩
  have hlength := (hnodup.subperm hsubset).length_le
  rw [List.length_cons, List.length_map] at hlength
  have := h.room
  omega

/-- What is around a symbol that a declaration refers to. -/
theorem next (h : Around outlook (limit + 1) active held entry.key)
    (hacyclic : ∀ key, ¬ TransGen (Depends outlook.declared) key key)
    (hentry : entry ∈ outlook.entries) {key : Key} (hkey : Depends outlook.declared entry.key key)
    (account : Account) :
    Around outlook limit (entry.id :: active) (Function.update held entry.key (some account))
      key := by
  constructor
  case room =>
    have := h.room
    rw [List.length_cons]
    omega
  case once => exact List.nodup_cons.mpr ⟨h.not_active hacyclic hentry, h.once⟩
  case resolving =>
    intro id hid
    rcases List.mem_cons.mp hid with rfl | hid
    · exact ⟨entry, hentry, rfl, .single hkey⟩
    · obtain ⟨other, hother, heq, hpath⟩ := h.resolving id hid
      exact ⟨other, hother, heq, hpath.tail hkey⟩
  case looking =>
    intro other hother hinterface hsome
    by_cases heq : other.key = entry.key
    · rw [heq]
      exact .single hkey
    · rw [Function.update_of_ne heq] at hsome
      exact (h.looking other hother hinterface hsome).tail hkey
  case interfaces =>
    intro other hother hinterface
    by_cases heq : other.key = entry.key
    · rw [heq, Function.update_self]
      rfl
    · rw [Function.update_of_ne heq]
      exact h.interfaces other hother hinterface

end Around

/-- A symbol that is resolved changes nothing about the other declarations. -/
theorem accountsAt_resolve {entry : Entry} (hentry : entry ∈ outlook.entries)
    (held : Key → Option Account) (resolved : List SymbolId) {key : Key} (hkey : key ≠ entry.key) :
    outlook.accountsAt held (entry.id :: resolved) key = outlook.accountsAt held resolved key := by
  have hsame : (∃ other ∈ outlook.entries, other.key = key ∧ other.id ∈ entry.id :: resolved) ↔
      ∃ other ∈ outlook.entries, other.key = key ∧ other.id ∈ resolved := by
    constructor
    · rintro ⟨other, hother, rfl, hmem⟩
      rcases List.mem_cons.mp hmem with hid | hmem
      · cases Layout.entry_of_id hother hentry hid
        exact absurd rfl hkey
      · exact ⟨other, hother, rfl, hmem⟩
    · rintro ⟨other, hother, rfl, hmem⟩
      exact ⟨other, hother, rfl, List.mem_cons_of_mem _ hmem⟩
  unfold accountsAt
  simp only [hsame]

/-- The account of a resolved declaration that is no longer looked at is complete. -/
theorem accountsAt_of_resolved {entry : Entry} (hentry : entry ∈ outlook.entries)
    {held : Key → Option Account} (hheld : held entry.key = none) {resolved : List SymbolId}
    (hresolved : entry.id ∈ resolved) :
    outlook.accountsAt held resolved entry.key = outlook.accounts entry.key := by
  unfold accountsAt
  rw [hheld, if_pos ⟨entry, hentry, rfl, hresolved⟩]
  rfl

/-- The account of a declaration that was not looked at yet is empty. -/
theorem accountsAt_of_not_resolved {entry : Entry} (hentry : entry ∈ outlook.entries)
    {held : Key → Option Account} (hheld : held entry.key = none) {resolved : List SymbolId}
    (hresolved : entry.id ∉ resolved) :
    outlook.accountsAt held resolved entry.key = .start := by
  unfold accountsAt
  rw [hheld, if_neg]
  · rfl
  · rintro ⟨other, hother, hkey, hmem⟩
    cases Layout.entry_of_key hother hentry hkey
    exact hresolved hmem

/-- A declared symbol gets its type. -/
theorem Holds.setType {held held' : Key → Option Account} {naming : Naming} {s : ResolveState}
    (h : outlook.Holds held naming s) {entry : Entry} (hentry : entry ∈ outlook.entries)
    {type : TypeId} {shape : Shape} (hshape : outlook.shapes entry.key = some shape)
    (htype : naming.Types type shape)
    (hown : outlook.accountsAt held' (entry.id :: naming.resolved) entry.key =
      outlook.accountsAt held naming.resolved entry.key)
    (hothers : ∀ key, key ≠ entry.key → held' key = held key) :
    outlook.Holds held' (naming.resolve entry.id) ⟨{ s.program with
      symbols := s.program.symbols.modify entry.id.index fun symbol => { symbol with type } },
      entry.id :: s.resolved⟩ := by
  refine ⟨?_, congrArg (entry.id :: ·) h.resolved⟩
  have hsame (key : Key) : outlook.accountsAt held' (entry.id :: naming.resolved) key =
      outlook.accountsAt held naming.resolved key := by
    by_cases hkey : key = entry.key
    · rw [hkey, hown]
    · rw [accountsAt_resolve hentry held' naming.resolved hkey]
      unfold accountsAt
      rw [hothers key hkey]
  show outlook.Agrees (outlook.accountsAt held' (entry.id :: naming.resolved)) _ _
  rw [funext hsame]
  exact h.agrees.setType hentry hshape htype

end Outlook

/-! ## Symbols -/

namespace Resolve

variable {outlook : Outlook} {file : FileId}

/-- How a symbol with one declaration that is not being resolved is resolved. -/
theorem symbol_run {pending : Pending} {limit : Nat} {active : List SymbolId} {id : SymbolId}
    {declaration : Declaration} (hactive : id ∉ active)
    (hdeclarations : pending.declarationsOf id = [declaration]) (s : ResolveState) :
    (symbol file pending (limit + 1) active id).run s =
      if id ∈ s.resolved then ((s.program.symbol id).type, s)
      else
        let (type, s') := (declaredType file (symbol file pending limit (id :: active)) id
          declaration [declaration]).run s
        (type, ⟨{ s'.program with
          symbols := s'.program.symbols.modify id.index fun symbol => { symbol with type } },
          id :: s'.resolved⟩) := by
  have hcontains : active.contains id = false := by simpa using hactive
  unfold symbol
  simp only [hdeclarations, hcontains, Bool.false_eq_true, if_false]
  by_cases hresolved : id ∈ s.resolved
  · have hcontains' : s.resolved.contains id = true := by simpa using hresolved
    rw [if_pos hresolved]
    simp only [StateT.run_bind, StateT.run_get, pure_bind, hcontains', if_true]
    rfl
  · have hcontains' : s.resolved.contains id = false := by simpa using hresolved
    rw [if_neg hresolved]
    simp only [StateT.run_bind, StateT.run_get, pure_bind, hcontains', Bool.false_eq_true, if_false]
    rfl

/-- An interface is given the type it already has. -/
theorem declaredType_interface {resolve : SymbolId → Resolve TypeId} {id : SymbolId}
    {declaration : Declaration} (h : declaration.isInterface = true) {all : List Declaration}
    {s : ResolveState} :
    (declaredType file resolve id declaration all).run s = ((s.program.symbol id).type, s) := by
  cases declaration with
  | interface => rfl
  | _ => cases h

/-- A symbol gets the type that it is described as, whatever is being resolved around it. -/
theorem symbol_settled (hacyclic : ∀ key, ¬ TransGen (Depends outlook.declared) key key)
    (limit : Nat) {active : List SymbolId} {held : Key → Option Account} {entry : Entry}
    (hentry : entry ∈ outlook.entries)
    (haround : outlook.Around limit active held entry.key) {shape : Shape}
    (hshape : outlook.shapes entry.key = some shape) {naming : Naming} {s : ResolveState}
    (h : outlook.Holds held naming s) :
    let result := (symbol file outlook.pending limit active entry.id).run s
    ∃ naming', naming ≤ naming' ∧ outlook.Holds held naming' result.2 ∧
      naming'.Types result.1 shape ∧ entry.id ∈ naming'.resolved := by
  induction limit generalizing active held entry shape naming s with
  | zero => exact absurd (haround.limit_pos hacyclic hentry) (Nat.lt_irrefl 0)
  | succ limit ih =>
    intro result
    have hrun : result = _ := symbol_run (haround.not_active hacyclic hentry)
      (Outlook.declarationsOf_pending hentry) s
    clear_value result
    subst hrun
    by_cases hresolved : entry.id ∈ s.resolved
    · have hmem : entry.id ∈ naming.resolved := h.resolved ▸ hresolved
      rw [if_pos hresolved]
      exact ⟨naming, le_rfl, h, h.agrees.symbol_type hentry (.inl hmem) hshape, hmem⟩
    · rw [if_neg hresolved]
      have hnot : entry.id ∉ naming.resolved := h.resolved ▸ hresolved
      cases hinterface : entry.declaration.isInterface with
      | true =>
        -- an interface has its type already, and its account is kept apart
        have htype := h.agrees.symbol_type hentry (.inr hinterface) hshape
        obtain ⟨account, haccount⟩ := Option.isSome_iff_exists.mp
          (haround.interfaces entry hentry hinterface)
        have hown : outlook.accountsAt held (entry.id :: naming.resolved) entry.key =
            outlook.accountsAt held naming.resolved entry.key := by
          unfold Outlook.accountsAt
          rw [haccount]
          rfl
        rw [declaredType_interface hinterface]
        refine ⟨_, naming.le_resolve entry.id, ?_, htype, List.mem_cons_self⟩
        exact h.setType hentry hshape htype hown fun _ _ => rfl
      | false =>
        have hheld := haround.not_held hacyclic hentry hinterface
        have hworking : outlook.Working held entry.key naming s .start := by
          refine h.congr fun key => ?_
          by_cases hkey : key = entry.key
          · rw [hkey, Outlook.accountsAt_update_self,
              Outlook.accountsAt_of_not_resolved hentry hheld hnot]
          · rw [Outlook.accountsAt_update_ne hkey]
        have hsettles : Settles outlook held entry.key naming
            (symbol file outlook.pending limit (entry.id :: active))
            entry.declaration.references := by
          intro naming₁ _ other hother hkey shape' hshape' s₁ account h₁
          have hdepends : Depends outlook.declared entry.key other.key :=
            ⟨entry.declaration, List.mem_map_of_mem hentry, hinterface, hkey⟩
          obtain ⟨naming₂, hle, hholds, htype, hdone⟩ :=
            ih hother (haround.next hacyclic hentry hdepends account) hshape' h₁
          exact ⟨naming₂, hle, hholds, rfl, htype, hdone⟩
        obtain ⟨naming₁, hle, hworking₁, htype⟩ :=
          declaredType_described file hentry hinterface hsettles s .start hworking
        have hmem := List.mem_map_of_mem (f := fun entry : Entry => (entry.key, entry.declaration))
          hentry
        rw [← outlook.solves.account hmem] at hworking₁
        have hshape' := (outlook.solves.shape hmem).symm.trans hshape
        rw [Option.some_inj] at hshape'
        rw [hshape'] at htype
        refine ⟨_, hle.trans (naming₁.le_resolve entry.id), ?_, htype, List.mem_cons_self⟩
        refine hworking₁.setType hentry hshape htype ?_ fun key hkey => ?_
        · rw [Outlook.accountsAt_of_resolved hentry hheld List.mem_cons_self,
            Outlook.accountsAt_update_self]
        · rw [Function.update_of_ne hkey]

/-- Of the declarations, interfaces and nothing else are being looked at. -/
def OnlyInterfaces (outlook : Outlook) (held : Key → Option Account) : Prop :=
  ∀ entry ∈ outlook.entries, (held entry.key).isSome = entry.declaration.isInterface

/-- Resolving a symbol from outside gives it the type its shape says. -/
theorem fresh_settled (hacyclic : ∀ key, ¬ TransGen (Depends outlook.declared) key key)
    {held : Key → Option Account} (hheld : OnlyInterfaces outlook held) {entry : Entry}
    (hentry : entry ∈ outlook.entries) {shape : Shape}
    (hshape : outlook.shapes entry.key = some shape) {naming : Naming} {s : ResolveState}
    (h : outlook.Holds held naming s) :
    let result := (fresh file outlook.pending entry.id).run s
    ∃ naming', naming ≤ naming' ∧ outlook.Holds held naming' result.2 ∧
      naming'.Types result.1 shape ∧ entry.id ∈ naming'.resolved := by
  refine symbol_settled hacyclic _ hentry ?_ hshape h
  constructor
  case room =>
    show _ < outlook.pending.length + 1 + 0
    rw [Outlook.pending, List.length_map]
    exact Nat.lt_succ_self _
  case once => exact List.nodup_nil
  case resolving => exact fun _ hid => absurd hid List.not_mem_nil
  case looking =>
    intro other hother hinterface hsome
    rw [hheld other hother, hinterface] at hsome
    cases hsome
  case interfaces =>
    intro other hother hinterface
    rw [hheld other hother, hinterface]

/-! ## Members of interfaces -/

/-- An interface of one declaration is run by gathering its members. -/
theorem interfaceMembers_run {pending : Pending} {id : SymbolId} {scope : ScopeId}
    {list : List TypeElement} (h : pending.declarationsOf id = [.interface scope list])
    (s : ResolveState) :
    (interfaceMembers file pending id).run s =
      let (members, s') :=
        (elements file (reference file (fresh file pending)) scope list .empty).run s
      ((), ⟨{ s'.program with
        types := s'.program.types.setMembers (s'.program.symbol id).type members },
        id :: s'.resolved⟩) := by
  unfold interfaceMembers
  rw [h]
  rfl

/-- While an interface is at work, still only interfaces hold accounts. -/
theorem OnlyInterfaces.update {held : Key → Option Account} (hheld : OnlyInterfaces outlook held)
    {entry : Entry} (hentry : entry ∈ outlook.entries)
    (hinterface : entry.declaration.isInterface = true) (account : Account) :
    OnlyInterfaces outlook (Function.update held entry.key (some account)) := by
  intro other hother
  by_cases hkey : other.key = entry.key
  · cases Layout.entry_of_key hother hentry hkey
    rw [Function.update_self, hinterface]
    rfl
  · rw [Function.update_of_ne hkey]
    exact hheld other hother

/-- An interface gets the members that it is described with. -/
theorem interfaceMembers_settled
    (hacyclic : ∀ key, ¬ TransGen (Depends outlook.declared) key key)
    {held : Key → Option Account} (hheld : OnlyInterfaces outlook held) {entry : Entry}
    (hentry : entry ∈ outlook.entries) (hinterface : entry.declaration.isInterface = true)
    (hstart : held entry.key = some .start) {naming : Naming} {s : ResolveState}
    (h : outlook.Holds held naming s) :
    ∃ naming', naming ≤ naming' ∧
      outlook.Holds (Function.update held entry.key (some (outlook.accounts entry.key))) naming'
        ((interfaceMembers file outlook.pending entry.id).run s).2 := by
  obtain ⟨members, hmembers⟩ : ∃ members, entry.declaration = .interface ⟨0⟩ members := by
    have hscope := outlook.inScope entry hentry
    generalize entry.declaration = declaration at hinterface hscope
    cases declaration with
    | interface scope members =>
      cases hscope
      exact ⟨members, rfl⟩
    | _ => cases hinterface
  have howner : entry.key ∈ outlook.keys := List.mem_map_of_mem hentry
  have hsettles : Settles outlook held entry.key naming (fresh file outlook.pending)
      ((elementReferences members).map .type) := by
    intro naming₁ _ other hother _ shape hshape s₁ account h₁
    obtain ⟨naming₂, hle, hholds, htype, hdone⟩ :=
      fresh_settled hacyclic (hheld.update hentry hinterface account) hother hshape h₁
    exact ⟨naming₂, hle, hholds, rfl, htype, hdone⟩
  -- the members are gathered and described side by side
  have hgathered : Follows (outlook.Working held entry.key) naming
      (elements file (reference file (fresh file outlook.pending)) ⟨0⟩ members .empty)
      (Describe.elements outlook.shapes entry.key members .empty) (MembersDescribed entry.key) :=
    elements_described members naming (reference_looks file howner hsettles) .nil
  have hworking : outlook.Working held entry.key naming s .start := by
    unfold Outlook.Working
    rw [← hstart, Function.update_eq_self]
    exact h
  obtain ⟨naming₁, hle, hworking₁, hmembers₁⟩ := hgathered s .start hworking
  have hdeclarations : outlook.pending.declarationsOf entry.id = [.interface ⟨0⟩ members] := by
    rw [Outlook.declarationsOf_pending hentry, hmembers]
  have haccount := outlook.solves.account (List.mem_map_of_mem hentry)
  rw [hmembers] at haccount
  rw [interfaceMembers_run hdeclarations]
  refine ⟨_, hle.trans (naming₁.le_resolve entry.id), ?_,
    congrArg (entry.id :: ·) hworking₁.resolved⟩
  have hshape : outlook.shapes entry.key = some (.interface entry.key) := by
    rw [outlook.solves.shape (List.mem_map_of_mem hentry),
      Describe.declaration_interface hinterface]
  have hpairs : SymbolTable.Pairs naming₁.Symbols _ _ :=
    hmembers₁.imp fun _ _ hmember => hmember.symbols
  refine hworking₁.agrees.setMembers hentry hinterface hshape hpairs ?_ fun key hkey => ?_
  · rw [Outlook.accountsAt_update_self, Outlook.accountsAt_update_self, haccount]
    rfl
  · rw [Outlook.accountsAt_update_ne hkey, Outlook.accountsAt_update_ne hkey]
    exact Outlook.accountsAt_resolve hentry held naming₁.resolved hkey

/-! ## Everything a file declares -/

/-- The accounts of interfaces while they get their members in turn. -/
def heldBy (outlook : Outlook) (done : List Key) (key : Key) : Option Account :=
  if ∃ entry ∈ outlook.entries, entry.key = key ∧ entry.declaration.isInterface = true then
    some (if key ∈ done then outlook.accounts key else .start)
  else none

/-- An interface holds its account once its members are in, and an empty one before. -/
theorem heldBy_interface {entry : Entry} (hentry : entry ∈ outlook.entries)
    (hinterface : entry.declaration.isInterface = true) (done : List Key) :
    heldBy outlook done entry.key =
      some (if entry.key ∈ done then outlook.accounts entry.key else .start) :=
  if_pos ⟨entry, hentry, rfl, hinterface⟩

/-- Nothing but an interface holds an account between the rounds. -/
theorem heldBy_other {entry : Entry} (hentry : entry ∈ outlook.entries)
    (hinterface : entry.declaration.isInterface = false) (done : List Key) :
    heldBy outlook done entry.key = none := by
  apply if_neg
  rintro ⟨other, hother, hkey, hother'⟩
  cases Layout.entry_of_key hother hentry hkey
  rw [hinterface] at hother'
  cases hother'

/-- Between the rounds only interfaces hold accounts. -/
theorem onlyInterfaces_heldBy (done : List Key) :
    OnlyInterfaces outlook (heldBy outlook done) := by
  intro entry hentry
  cases hinterface : entry.declaration.isInterface with
  | true => rw [heldBy_interface hentry hinterface, Option.isSome_some]
  | false => rw [heldBy_other hentry hinterface, Option.isSome_none]

/-- One more interface has its members. -/
theorem heldBy_cons {entry : Entry} (hentry : entry ∈ outlook.entries)
    (hinterface : entry.declaration.isInterface = true) (done : List Key) :
    heldBy outlook (entry.key :: done) =
      Function.update (heldBy outlook done) entry.key (some (outlook.accounts entry.key)) := by
  funext key
  by_cases hkey : key = entry.key
  · subst hkey
    rw [Function.update_self, heldBy_interface hentry hinterface, if_pos List.mem_cons_self]
  · rw [Function.update_of_ne hkey]
    unfold heldBy
    simp only [List.mem_cons, hkey, false_or]

/-- A declaration that is no interface makes no difference. -/
theorem heldBy_cons_other {entry : Entry} (hentry : entry ∈ outlook.entries)
    (hinterface : entry.declaration.isInterface = false) (done : List Key) :
    heldBy outlook (entry.key :: done) = heldBy outlook done := by
  funext key
  by_cases hkey : key = entry.key
  · subst hkey
    rw [heldBy_other hentry hinterface, heldBy_other hentry hinterface]
  · unfold heldBy
    simp only [List.mem_cons, hkey, false_or]

/-- A loop over a list runs its first round, then the rest. -/
theorem forM_run_cons {σ γ : Type} (f : γ → StateM σ PUnit) (x : γ) (xs : List γ) (s : σ) :
    ((x :: xs).forM f).run s = (xs.forM f).run ((f x).run s).2 :=
  rfl

/-- Gives a symbol its members if it is an interface. -/
def membersOfInterface (file : FileId) (pending : Pending) (id : SymbolId) : Resolve PUnit := do
  if ((← program).symbol id).sort = .interface then interfaceMembers file pending id

/-- The first round gives members to interfaces and passes over everything else. -/
theorem membersOfInterface_run (pending : Pending) (id : SymbolId) (s : ResolveState) :
    (membersOfInterface file pending id).run s =
      if (s.program.symbol id).sort = .interface then (interfaceMembers file pending id).run s
      else ((), s) := by
  show (if (s.program.symbol id).sort = .interface then interfaceMembers file pending id
    else pure PUnit.unit : Resolve PUnit).run s = _
  split <;> rfl

/-- The interfaces get their members in turn. -/
theorem interfaces_settled (file : FileId)
    (hacyclic : ∀ key, ¬ TransGen (Depends outlook.declared) key key)
    (rest : List Entry) (hrest : rest ⊆ outlook.entries) (honce : (rest.map Entry.key).Nodup)
    {done : List Key} (hdone : ∀ entry ∈ rest, entry.key ∉ done) {naming : Naming}
    {s : ResolveState} (h : outlook.Holds (heldBy outlook done) naming s) :
    ∃ naming', outlook.Holds (heldBy outlook ((rest.map Entry.key).reverse ++ done)) naming'
      (((rest.map Entry.id).forM (membersOfInterface file outlook.pending)).run s).2 := by
  induction rest generalizing done naming s with
  | nil => exact ⟨naming, h⟩
  | cons entry rest ih =>
    have hentry := hrest List.mem_cons_self
    obtain ⟨hnew, honce⟩ := List.nodup_cons.mp honce
    have hdone' : ∀ other ∈ rest, other.key ∉ entry.key :: done := by
      intro other hother hmem
      rcases List.mem_cons.mp hmem with hkey | hmem
      · exact hnew (hkey ▸ List.mem_map_of_mem hother)
      · exact hdone other (List.mem_cons_of_mem _ hother) hmem
    have hnext {naming₁ : Naming} {s₁ : ResolveState}
        (h₁ : outlook.Holds (heldBy outlook (entry.key :: done)) naming₁ s₁) :=
      ih (fun _ hmem => hrest (List.mem_cons_of_mem _ hmem)) honce hdone' h₁
    have hsort : (s.program.symbol entry.id).sort = .interface ↔
        entry.declaration.isInterface = true := by
      obtain ⟨-, symbol, hsymbol, hsort, -⟩ := h.agrees.declared entry hentry
      rw [Program.symbol_of_symbols hsymbol]
      exact hsort
    rw [List.map_cons, List.reverse_cons, List.append_assoc, List.singleton_append, List.map_cons,
      forM_run_cons, membersOfInterface_run]
    cases hinterface : entry.declaration.isInterface with
    | true =>
      have hstart : heldBy outlook done entry.key = some .start := by
        rw [heldBy_interface hentry hinterface, if_neg (hdone entry List.mem_cons_self)]
      obtain ⟨naming₁, -, h₁⟩ := interfaceMembers_settled hacyclic (onlyInterfaces_heldBy done)
        hentry hinterface hstart h
      rw [← heldBy_cons hentry hinterface] at h₁
      rw [if_pos (hsort.mpr hinterface)]
      exact hnext h₁
    | false =>
      rw [← heldBy_cons_other hentry hinterface] at h
      rw [if_neg fun heq => by rw [hsort.mp heq] at hinterface; cases hinterface]
      exact hnext h

/-- The symbols are resolved in turn. -/
theorem symbols_settled (file : FileId)
    (hacyclic : ∀ key, ¬ TransGen (Depends outlook.declared) key key)
    {held : Key → Option Account} (hheld : OnlyInterfaces outlook held) (rest : List Entry)
    (hrest : rest ⊆ outlook.entries) {naming : Naming} {s : ResolveState}
    (h : outlook.Holds held naming s) :
    ∃ naming', naming ≤ naming' ∧ (∀ entry ∈ rest, entry.id ∈ naming'.resolved) ∧
      outlook.Holds held naming' (((rest.map Entry.id).forM fun id => do
        let _ ← fresh file outlook.pending id).run s).2 := by
  induction rest generalizing naming s with
  | nil => exact ⟨naming, le_rfl, fun _ hmem => absurd hmem List.not_mem_nil, h⟩
  | cons entry rest ih =>
    have hentry := hrest List.mem_cons_self
    obtain ⟨shape, hshape⟩ := outlook.exists_shape hentry
    obtain ⟨naming₁, hle, h₁, -, hresolved⟩ := fresh_settled hacyclic hheld hentry hshape h
    obtain ⟨naming₂, hle', hdone, h₂⟩ := ih (fun _ hmem => hrest (List.mem_cons_of_mem _ hmem)) h₁
    refine ⟨naming₂, hle.trans hle', List.forall_mem_cons.mpr ⟨hle'.2.2 hresolved, hdone⟩, ?_⟩
    rw [List.map_cons, forM_run_cons]
    exact h₂

/-- A list without repeats has none to drop. -/
theorem eraseDups_of_nodup {α : Type} [BEq α] [LawfulBEq α] {list : List α} (h : list.Nodup) :
    list.eraseDups = list := by
  induction list with
  | nil => rfl
  | cons first rest ih =>
    obtain ⟨hfirst, hrest⟩ := List.nodup_cons.mp h
    have hfilter : (rest.filter fun b => !b == first) = rest := by
      rw [List.filter_eq_self]
      intro b hb
      simp only [Bool.not_eq_true', beq_eq_false_iff_ne]
      exact fun heq => hfirst (heq ▸ hb)
    rw [List.eraseDups_cons, hfilter, ih hrest]

/-- Without assignments, interfaces get their members and then the symbols are resolved. -/
theorem everything_bound (s : ResolveState) :
    ((everything file (outlook.entries.map Entry.bound)).run s).2 =
      (((outlook.entries.map Entry.id).forM fun id => do
        let _ ← fresh file outlook.pending id).run
          (((outlook.entries.map Entry.id).forM (membersOfInterface file outlook.pending)).run
            s).2).2 := by
  have hpending : pendingOf (outlook.entries.map Entry.bound) = outlook.pending := by
    unfold pendingOf Outlook.pending
    rw [List.filterMap_map, ← List.filterMap_eq_map]
    rfl
  have hsymbols : outlook.pending.symbols = outlook.entries.map Entry.id := by
    unfold Pending.symbols Outlook.pending
    rw [List.map_map]
    exact eraseDups_of_nodup outlook.idsOnce
  -- declarations are passed over when the assignments are recorded
  have hassignments (record : Bound → Resolve Unit)
      (hpassed : ∀ entry : Entry, record entry.bound = pure ()) (entries : List Entry)
      (s : ResolveState) : (((entries.map Entry.bound).forM record).run s).2 = s := by
    induction entries with
    | nil => rfl
    | cons entry rest ih =>
      change ((record entry.bound >>= fun _ => (rest.map Entry.bound).forM record).run s).2 = s
      rw [hpassed]
      exact ih
  rw [everything_eq, hpending, hsymbols]
  exact hassignments _ (fun _ => rfl) outlook.entries _

/-- Before anything is resolved, no declaration has brought anything. -/
theorem accountsAt_heldBy_nil (key : Key) :
    outlook.accountsAt (heldBy outlook []) [] key = .start := by
  unfold Outlook.accountsAt heldBy
  split
  · rfl
  · refine if_neg ?_
    rintro ⟨_, -, -, hresolved⟩
    cases hresolved

/-- When all interfaces have their members and all symbols are resolved, all accounts are
complete. -/
theorem accountsAt_heldBy {resolved : List SymbolId}
    (h : ∀ entry ∈ outlook.entries, entry.id ∈ resolved) (key : Key) :
    outlook.accountsAt (heldBy outlook outlook.keys.reverse) resolved key =
      outlook.accounts key := by
  by_cases hkey : key ∈ outlook.keys
  · obtain ⟨entry, hentry, rfl⟩ := List.mem_map.mp hkey
    cases hinterface : entry.declaration.isInterface with
    | true =>
      unfold Outlook.accountsAt
      rw [heldBy_interface hentry hinterface, if_pos (List.mem_reverse.mpr hkey)]
      rfl
    | false =>
      exact Outlook.accountsAt_of_resolved hentry (heldBy_other hentry hinterface _)
        (h entry hentry)
  · have hnone (entry : Entry) (hentry : entry ∈ outlook.entries) : entry.key ≠ key :=
      fun heq => hkey (heq ▸ List.mem_map_of_mem hentry)
    have hstart : outlook.accounts key = .start := by
      refine (outlook.solves.undeclared ?_).2
      rw [Layout.map_fst_declared]
      exact hkey
    unfold Outlook.accountsAt heldBy
    rw [if_neg, if_neg, hstart]
    · rfl
    · rintro ⟨entry, hentry, heq, -⟩
      exact hnone entry hentry heq
    · rintro ⟨entry, hentry, heq, -⟩
      exact hnone entry hentry heq

/-- At the end every declared symbol is resolved and has the type that it is described as. -/
theorem everything_settled (file : FileId)
    (hacyclic : ∀ key, ¬ TransGen (Depends outlook.declared) key key)
    {naming : Naming} {program : Program}
    (h : outlook.Holds (heldBy outlook []) naming ⟨program, []⟩) :
    ∃ naming', (∀ entry ∈ outlook.entries, entry.id ∈ naming'.resolved) ∧
      outlook.Agrees outlook.accounts naming'
        ((everything file (outlook.entries.map Entry.bound)).run ⟨program, []⟩).2.program := by
  obtain ⟨naming₁, h₁⟩ := interfaces_settled file hacyclic outlook.entries (List.Subset.refl _)
    outlook.keysOnce (fun _ _ => List.not_mem_nil) h
  obtain ⟨naming₂, -, hresolved, h₂⟩ := symbols_settled file hacyclic (onlyInterfaces_heldBy _)
    outlook.entries (List.Subset.refl _) h₁
  refine ⟨naming₂, hresolved, ?_⟩
  rw [everything_bound, ← funext (accountsAt_heldBy hresolved)]
  rw [List.append_nil] at h₂
  exact h₂.agrees

end Resolve

end ExpressionTyping
